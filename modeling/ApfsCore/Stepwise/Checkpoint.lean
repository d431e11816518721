import ApfsCore.Container.Open
import ApfsCore.General.Traced
import ApfsCore.Stepwise.Format

/-!
# The bootstrap, operation by operation

`resolve_live_checkpoint` once more, with each operation that could panic explicit and with every
block address it examines noted. The one sum whose operands come from the image unbounded is
`desc_base + i`, made in both loops: a build with overflow checks panics where it leaves `u64`, a
build without them wraps around (`Build`). All other operations stay in range in either build.

Where the descriptor area fits the address space both builds are the plain model
(`resolveLiveCheckpoint_of_fits`) and examine the blocks of the area only. Where it does not, the
one panics and the other goes on with block 0 (`resolveLiveCheckpoint_of_not_fits`). In either
build, what is returned is the live superblock among the blocks that the slots are looked up at
(`resolveLiveCheckpoint_eq_ok`).
-/

namespace ApfsCore

namespace Stepwise

/-- Whether a build checks its sums. -/
inductive Build where
  | checked
  | wrapping

/-- An unchecked `u64` addition of the source. -/
def Build.addU64 (build : Build) (a b : ℕ) : Run ℕ :=
  match build with
  | .checked => uadd 64 a b
  | .wrapping => .ok ((a + b) % 2 ^ 64)

/-- A run that notes the block addresses it examines. -/
abbrev Examining (α : Type) := Traced ℕ (Stop ApfsError) α

/-! ### The scan for the live superblock -/

/-- `read_block`. -/
def readBlock (img : Image) (paddr blockSize : ℕ) : Examining (Option Bytes) := do
  Traced.note paddr
  pure (ApfsCore.readBlock img paddr blockSize)

/-- What the first loop does with the block of one slot. -/
def RingScan.visit (st : RingScan) (paddr : ℕ) (buf : Bytes) : Run RingScan := do
  let checked ← uadd 64 st.checked 1
  let st := { st with checked }
  match ← ObjPhys.parse buf with
  | none => .ok st
  | some hdr =>
    if hdr.objType ≠ objectTypeNxSuperblock then .ok st
    else do
      let magic ← leU32 buf 32
      let st := { st with lastMagic := magic }
      if magic ≠ nxMagic then .ok st
      else do
        let stored ← fletcher64Stored buf
        let computed ← fletcher64Checksum buf
        if stored ≠ computed then .ok st
        else if st.best.all fun b => b.1 < hdr.xid then
          .ok { st with best := some (hdr.xid, paddr) }
        else .ok st

/-- One round of the first loop. -/
def scanSlot (build : Build) (img : Image) (blockSize descBase : ℕ) (st : RingScan) (i : ℕ) :
    Examining RingScan := do
  let paddr ← Traced.lift (build.addU64 descBase i)
  match ← readBlock img paddr blockSize with
  | none => pure st
  | some buf => Traced.lift (RingScan.visit st paddr buf)

/-- The first loop of `resolve_live_checkpoint`. -/
def scanRing (build : Build) (img : Image) (blockSize descBase descBlocks : ℕ) :
    Examining RingScan :=
  (List.range descBlocks).foldlM (scanSlot build img blockSize descBase) .start

/-! ### The scan for the checkpoint maps -/

/-- One mapping of a checkpoint-map block. -/
def cpmMapping (buf : Bytes) (m : ℕ) : Run CheckpointMapping := do
  let skipped ← umul 64 m 40
  let off ← uadd 64 40 skipped
  let objType ← leU32 buf off
  let o ← uadd 64 off 4
  let subtype ← leU32 buf o
  let o ← uadd 64 off 24
  let oid ← leU64 buf o
  let o ← uadd 64 off 32
  let paddr ← leU64 buf o
  .ok { objType, subtype, oid, paddr }

/-- The mappings of a checkpoint-map block. -/
def cpmMappings (buf : Bytes) : Run (List CheckpointMapping) := do
  let count ← leU32 buf 36
  (List.range (min count maxCpmCount)).foldlM
    (fun mappings m => do
      let mapping ← cpmMapping buf m
      .ok (mappings ++ [mapping]))
    []

/-- What the second loop adds for the block of one slot. -/
def slotMappings (xid : ℕ) (buf : Bytes) : Run (List CheckpointMapping) := do
  match ← ObjPhys.parse buf with
  | none => .ok []
  | some hdr =>
    if hdr.objType ≠ objectTypeCheckpointMap ∨ hdr.xid ≠ xid then .ok []
    else do
      let stored ← fletcher64Stored buf
      let computed ← fletcher64Checksum buf
      if stored ≠ computed then .ok [] else cpmMappings buf

/-- One round of the second loop. -/
def collectSlot (build : Build) (img : Image) (blockSize descBase xid : ℕ)
    (mappings : List CheckpointMapping) (i : ℕ) : Examining (List CheckpointMapping) := do
  let paddr ← Traced.lift (build.addU64 descBase i)
  match ← readBlock img paddr blockSize with
  | none => pure mappings
  | some buf => do
    let found ← Traced.lift (slotMappings xid buf)
    pure (mappings ++ found)

/-- The second loop of `resolve_live_checkpoint`. -/
def collectMappings (build : Build) (img : Image) (blockSize descBase descBlocks xid : ℕ) :
    Examining (List CheckpointMapping) :=
  (List.range descBlocks).foldlM (collectSlot build img blockSize descBase xid) []

/-- `resolve_live_checkpoint`. -/
def resolveLiveCheckpoint (build : Build) (img : Image) (bootstrap : NxSuperblock) :
    Examining LiveCheckpoint :=
  if bootstrap.xpDescIsTree then
    Traced.lift (asRun (fail (.checkpointTreeUnsupported "descriptor")))
  else if ¬(nxMinimumBlockSize ≤ bootstrap.blockSize ∧
      bootstrap.blockSize ≤ nxMaximumBlockSize) then
    Traced.lift (asRun (fail
      (.fieldOutOfRange "nx_superblock" "nx_block_size" bootstrap.blockSize nxMaximumBlockSize)))
  else do
    let st ← scanRing build img bootstrap.blockSize bootstrap.xpDescBase bootstrap.xpDescBlocks
    match st.best with
    | none => Traced.lift (asRun (fail (.noValidSuperblock st.checked st.lastMagic)))
    | some (xid, superblockPaddr) => do
      let mappings ← collectMappings build img bootstrap.blockSize bootstrap.xpDescBase
        bootstrap.xpDescBlocks xid
      pure { superblockPaddr, xid, mappings }

/-! ### Slots -/

section Slots

variable {build : Build} {img : Image} {blockSize base i : ℕ}

private theorem addU64_eq (h : base + i < 2 ^ 64) : build.addU64 base i = .ok (base + i) := by
  cases build with
  | checked => exact uadd_eq h
  | wrapping => rw [Build.addU64, Nat.mod_eq_of_lt h]

/-- In either build, an address that is computed at all is the `u64` sum. -/
theorem addU64_eq_ok {p : ℕ} (h : build.addU64 base i = .ok p) : p = (base + i) % 2 ^ 64 := by
  cases build with
  | checked =>
    rw [Build.addU64, uadd] at h
    split_ifs at h with hlt
    cases h
    exact (Nat.mod_eq_of_lt hlt).symm
  | wrapping =>
    cases h
    rfl

/-- The first loop counts the slots it reads, and does nothing else that could overflow. -/
private theorem RingScan.visit_eq {st : RingScan} (hst : st.checked + 1 < 2 ^ 64) (paddr : ℕ)
    (buf : Bytes) : RingScan.visit st paddr buf = .ok (st.visit paddr buf) := by
  rw [RingScan.visit, uadd_eq hst, ok_bind, ObjPhys.parse_eq, ok_bind]
  rw [ApfsCore.RingScan.visit]
  cases ApfsCore.ObjPhys.parse buf with
  | none => rfl
  | some hdr =>
    dsimp only
    refine ite_eq_ok (fun _ => rfl) fun _ => ?_
    rw [leU32_eq (by norm_num), ok_bind]
    refine ite_eq_ok (fun _ => rfl) fun _ => ?_
    rw [fletcher64Stored_eq, ok_bind, fletcher64Checksum_eq, ok_bind]
    refine ite_eq_ok (fun _ => rfl) fun _ => ?_
    exact ite_eq_ok (fun _ => rfl) fun _ => rfl

private theorem checked_visit_le (st : RingScan) (paddr : ℕ) (buf : Bytes) :
    (st.visit paddr buf).checked ≤ st.checked + 1 := by
  rw [ApfsCore.RingScan.visit]
  cases ApfsCore.ObjPhys.parse buf with
  | none => exact le_rfl
  | some hdr =>
    dsimp only
    split_ifs <;> exact le_rfl

private theorem checked_slot_le (img : Image) (blockSize : ℕ) (st : RingScan) (paddr : ℕ) :
    (st.slot img blockSize paddr).checked ≤ st.checked + 1 := by
  rw [RingScan.slot]
  cases ApfsCore.readBlock img paddr blockSize with
  | none => exact Nat.le_succ _
  | some buf => exact checked_visit_le st paddr buf

/-- A round of the first loop whose address is computed. -/
private theorem outcome_scanSlot {p : ℕ} (h : build.addU64 base i = .ok p) {st : RingScan}
    (hst : st.checked + 1 < 2 ^ 64) :
    (scanSlot build img blockSize base st i).outcome = .ok (st.slot img blockSize p) := by
  rw [scanSlot, Traced.outcome_bind, Traced.outcome_lift, h, ok_bind,
    Traced.outcome_bind, readBlock, Traced.outcome_bind, Traced.outcome_note, ok_bind,
    Traced.outcome_pure, ok_bind, RingScan.slot]
  cases ApfsCore.readBlock img p blockSize with
  | none => rfl
  | some buf => exact RingScan.visit_eq hst _ buf

/-- The first loop over slots whose addresses are computed. -/
private theorem outcome_scanSlots (addr : ℕ → ℕ) {l : List ℕ}
    (h : ∀ i ∈ l, build.addU64 base i = .ok (addr i)) {st : RingScan}
    (hst : st.checked + l.length < 2 ^ 64) :
    (l.foldlM (scanSlot build img blockSize base) st).outcome =
      .ok (l.foldl (fun st i => RingScan.slot img blockSize st (addr i)) st) := by
  induction l generalizing st with
  | nil => rfl
  | cons i l ih =>
    rw [List.length_cons] at hst
    have hnext := checked_slot_le img blockSize st (addr i)
    rw [List.foldlM_cons, Traced.outcome_bind,
      outcome_scanSlot (h i List.mem_cons_self) (by omega), ok_bind, List.foldl_cons]
    exact ih (fun j hj => h j (List.mem_cons_of_mem i hj)) (by omega)

private theorem cpmMapping_eq (buf : Bytes) {m : ℕ} (hm : m < maxCpmCount) :
    cpmMapping buf m = .ok
      { objType := ApfsCore.leU32 buf (40 + m * 40)
        subtype := ApfsCore.leU32 buf (40 + m * 40 + 4)
        oid := ApfsCore.leU64 buf (40 + m * 40 + 24)
        paddr := ApfsCore.leU64 buf (40 + m * 40 + 32) } := by
  rw [maxCpmCount] at hm
  rw [cpmMapping]
  simp (disch := omega) only [umul_eq, uadd_eq, leU32_eq, leU64_eq, ok_bind]

private theorem cpmMappings_eq (buf : Bytes) :
    cpmMappings buf = .ok (ApfsCore.cpmMappings buf) := by
  rw [cpmMappings, leU32_eq (by norm_num), ok_bind, ApfsCore.cpmMappings]
  rw [← List.filterMap_eq_map, ← List.nil_append (List.filterMap _ _), ← foldl_append_toList]
  refine foldlM_eq_ok_foldl (fun mappings m hm => ?_) []
  have hcount := Nat.min_le_right (ApfsCore.leU32 buf 36) maxCpmCount
  rw [cpmMapping_eq buf ((List.mem_range.mp hm).trans_le hcount), ok_bind]
  rfl

/-- Nothing the second loop does with a block could overflow. -/
private theorem slotMappings_eq (xid : ℕ) (buf : Bytes) :
    slotMappings xid buf = .ok (ApfsCore.slotMappings xid buf) := by
  rw [slotMappings, ObjPhys.parse_eq, ok_bind, ApfsCore.slotMappings]
  cases ApfsCore.ObjPhys.parse buf with
  | none => rfl
  | some hdr =>
    dsimp only
    refine ite_eq_ok (fun _ => rfl) fun _ => ?_
    rw [fletcher64Stored_eq, ok_bind, fletcher64Checksum_eq, ok_bind]
    exact ite_eq_ok (fun _ => rfl) fun _ => cpmMappings_eq buf

/-- A round of the second loop whose address is computed. -/
theorem outcome_collectSlot {p : ℕ} (h : build.addU64 base i = .ok p) (xid : ℕ)
    (mappings : List CheckpointMapping) :
    (collectSlot build img blockSize base xid mappings i).outcome =
      .ok (match ApfsCore.readBlock img p blockSize with
        | none => mappings
        | some buf => mappings ++ ApfsCore.slotMappings xid buf) := by
  rw [collectSlot, Traced.outcome_bind, Traced.outcome_lift, h, ok_bind,
    Traced.outcome_bind, readBlock, Traced.outcome_bind, Traced.outcome_note, ok_bind,
    Traced.outcome_pure, ok_bind]
  cases ApfsCore.readBlock img p blockSize with
  | none => rfl
  | some buf =>
    dsimp only
    rw [Traced.outcome_bind, Traced.outcome_lift, slotMappings_eq, ok_bind, Traced.outcome_pure]

/-- The address examined in a round is that of the slot, when it is in range. -/
private theorem logs_readBlock {P : ℕ → Prop} {paddr : ℕ} (hp : P paddr) :
    Traced.Logs P (readBlock img paddr blockSize) :=
  (Traced.Logs.note hp).bind fun _ _ => Traced.Logs.lift _

private theorem logs_slot {P : ℕ → Prop} {α : Type} (h : base + i < 2 ^ 64) (hp : P (base + i))
    {f : Option Bytes → ℕ → Examining α} (hf : ∀ buf p, Traced.Logs P (f buf p)) :
    Traced.Logs P (Traced.lift (build.addU64 base i) >>= fun paddr =>
      readBlock img paddr blockSize >>= fun buf => f buf paddr) := by
  refine (Traced.Logs.lift _).bind fun paddr hpaddr => ?_
  rw [Traced.outcome_lift, addU64_eq h] at hpaddr
  cases hpaddr
  exact (logs_readBlock hp).bind fun buf _ => hf buf _

end Slots

/-! ### Runs -/

section Runs

variable {img : Image} {nx : NxSuperblock}

/-- The rounds of a loop, split at one of them. -/
private theorem range_split {n k : ℕ} (h : k < n) :
    ∃ back, List.range n = List.range k ++ k :: back := by
  obtain ⟨m, rfl⟩ := Nat.exists_eq_add_of_lt h
  refine ⟨(List.range m).map fun j => k + (j + 1), ?_⟩
  rw [Nat.add_assoc, List.range_add, List.range_succ_eq_map, List.map_cons, List.map_map]
  rfl

section Fits

variable {build : Build} {blockSize base n : ℕ}

private theorem mem_range_fits (hfit : base + n ≤ 2 ^ 64) :
    ∀ i ∈ List.range n, base + i < 2 ^ 64 := by
  intro i hi
  have := List.mem_range.mp hi
  omega

private theorem outcome_scanRing (hn : n < 2 ^ 64) (hfit : base + n ≤ 2 ^ 64) :
    (scanRing build img blockSize base n).outcome = .ok (ringAfter img blockSize base n) := by
  refine outcome_scanSlots (base + ·) (fun i hi => addU64_eq (mem_range_fits hfit i hi)) ?_
  rw [List.length_range, RingScan.start, Nat.zero_add]
  exact hn

private theorem outcome_collectMappings (hfit : base + n ≤ 2 ^ 64) (xid : ℕ) :
    (collectMappings build img blockSize base n xid).outcome =
      asRun (ApfsCore.collectMappings img blockSize base n xid) := by
  have hplain : ApfsCore.collectMappings img blockSize base n xid = .ok _ :=
    foldlM_eq_ok_foldl (g := fun mappings i =>
      match ApfsCore.readBlock img (base + i) blockSize with
      | none => mappings
      | some buf => mappings ++ ApfsCore.slotMappings xid buf) (fun mappings i hi => by
        rw [ApfsCore.addU64, if_pos (mem_range_fits hfit i hi), ok_bind]
        cases ApfsCore.readBlock img (base + i) blockSize <;> rfl) []
  rw [collectMappings, Traced.outcome_foldlM, hplain]
  exact foldlM_eq_ok_foldl
    (fun mappings i hi => outcome_collectSlot (addU64_eq (mem_range_fits hfit i hi)) xid mappings)
    []

/-- Both loops examine the slots of the ring. -/
private theorem logs_loops (hfit : base + n ≤ 2 ^ 64) (xid : ℕ) :
    Traced.Logs (fun p => base ≤ p ∧ p < base + n) (scanRing build img blockSize base n) ∧
      Traced.Logs (fun p => base ≤ p ∧ p < base + n)
        (collectMappings build img blockSize base n xid) := by
  have hin : ∀ i ∈ List.range n, base ≤ base + i ∧ base + i < base + n := by
    intro i hi
    have := List.mem_range.mp hi
    omega
  constructor
  · refine Traced.Logs.foldlM (fun st i hi => ?_) _
    refine logs_slot (mem_range_fits hfit i hi) (hin i hi) fun buf p => ?_
    cases buf with
    | none => exact Traced.Logs.lift (.ok st)
    | some buf => exact Traced.Logs.lift _
  · refine Traced.Logs.foldlM (fun mappings i hi => ?_) _
    refine logs_slot (mem_range_fits hfit i hi) (hin i hi) fun buf p => ?_
    cases buf with
    | none => exact Traced.Logs.lift (.ok mappings)
    | some buf => exact (Traced.Logs.lift _).bind fun found _ => Traced.Logs.lift (.ok _)

end Fits

/-- **The descriptor area fits.** Either build is the plain model, and examines the blocks of the
area only. -/
theorem resolveLiveCheckpoint_of_fits (build : Build) (hblocks : nx.xpDescBlocks < 2 ^ 64)
    (hfit : nx.xpDescBase + nx.xpDescBlocks ≤ 2 ^ 64) :
    (resolveLiveCheckpoint build img nx).outcome =
        asRun (ApfsCore.resolveLiveCheckpoint img nx) ∧
      Traced.Logs (fun p => nx.xpDescBase ≤ p ∧ p < nx.xpDescBase + nx.xpDescBlocks)
        (resolveLiveCheckpoint build img nx) := by
  rw [resolveLiveCheckpoint, ApfsCore.resolveLiveCheckpoint]
  split_ifs with htree hadm
  · exact ⟨rfl, Traced.Logs.lift _⟩
  · constructor
    · rw [Traced.outcome_bind, outcome_scanRing hblocks hfit, ok_bind, scanRing_eq hfit, ok_bind]
      cases (ringAfter img nx.blockSize nx.xpDescBase nx.xpDescBlocks).best with
      | none => rfl
      | some best =>
        dsimp only
        rw [Traced.outcome_bind, outcome_collectMappings hfit]
        exact bind_eq_asRun rfl fun mappings _ => rfl
    · refine (logs_loops hfit 0).1.bind fun st _ => ?_
      cases st.best with
      | none => exact Traced.Logs.lift _
      | some best =>
        exact (logs_loops hfit best.1).2.bind fun mappings _ => Traced.Logs.lift (.ok _)
  · exact ⟨rfl, Traced.Logs.lift _⟩

/-- The plain scan of a ring that does not fit stops at the first address out of range. -/
private theorem scanRing_of_not_fits {blockSize base n : ℕ} (hbase : base ≤ 2 ^ 64)
    (hfit : 2 ^ 64 < base + n) : ApfsCore.scanRing img blockSize base n = .error .overflow := by
  induction n with
  | zero => omega
  | succ n ih =>
    have hsplit : ApfsCore.scanRing img blockSize base (n + 1) =
        ApfsCore.scanRing img blockSize base n >>= fun st => ApfsCore.addU64 base n >>= fun paddr =>
          .ok (st.slot img blockSize paddr) := by
      rw [ApfsCore.scanRing, List.range_succ, List.foldlM_append]
      simp only [List.foldlM_cons, List.foldlM_nil, bind_pure]
      rfl
    rw [hsplit]
    by_cases hn : 2 ^ 64 < base + n
    · rw [ih hn, error_bind]
    · have hover : ¬base + n < 2 ^ 64 := by omega
      rw [scanRing_eq (Nat.le_of_not_lt hn), ok_bind, ApfsCore.addU64, if_neg hover, error_bind]

/-- **The descriptor area does not fit.** A build with overflow checks panics in the first loop; a
build without them examines block 0. -/
theorem resolveLiveCheckpoint_of_not_fits (hcontiguous : nx.xpDescIsTree = false)
    (hadm : nxMinimumBlockSize ≤ nx.blockSize ∧ nx.blockSize ≤ nxMaximumBlockSize)
    (hbase : nx.xpDescBase < 2 ^ 64) (hblocks : nx.xpDescBlocks < 2 ^ 64)
    (hfit : 2 ^ 64 < nx.xpDescBase + nx.xpDescBlocks) :
    (resolveLiveCheckpoint .checked img nx).outcome = .error (.panic .overflow) ∧
      0 ∈ (resolveLiveCheckpoint .wrapping img nx).log := by
  -- the round of the first address out of range, and those before it
  have hk : 2 ^ 64 - nx.xpDescBase < nx.xpDescBlocks := by omega
  obtain ⟨back, hback⟩ := range_split hk
  have hfront : ∀ build, ((List.range (2 ^ 64 - nx.xpDescBase)).foldlM
      (scanSlot build img nx.blockSize nx.xpDescBase) .start).outcome = .ok _ := fun build =>
    outcome_scanRing (hk.trans hblocks) (by omega)
  have hsum : nx.xpDescBase + (2 ^ 64 - nx.xpDescBase) = 2 ^ 64 := by omega
  rw [resolveLiveCheckpoint, resolveLiveCheckpoint]
  simp only [hcontiguous, Bool.false_eq_true, if_false, if_neg (not_not.mpr hadm)]
  constructor
  · have hscan : (scanRing .checked img nx.blockSize nx.xpDescBase nx.xpDescBlocks).outcome =
        .error (.panic .overflow) := by
      have hadd : (Build.checked.addU64 nx.xpDescBase (2 ^ 64 - nx.xpDescBase)) =
          .error (.panic .overflow) := by
        rw [Build.addU64, uadd, hsum, if_neg (lt_irrefl _)]
      have hpanic : ∀ st, (scanSlot .checked img nx.blockSize nx.xpDescBase st
          (2 ^ 64 - nx.xpDescBase)).outcome = .error (.panic .overflow) := by
        intro st
        rw [scanSlot, Traced.outcome_bind, Traced.outcome_lift, hadd, error_bind]
      have hfront' := hfront .checked
      rw [Traced.outcome_foldlM] at hfront'
      rw [scanRing, hback, Traced.outcome_foldlM, List.foldlM_append, hfront', ok_bind,
        List.foldlM_cons, hpanic, error_bind]
    rw [Traced.outcome_bind, hscan, error_bind]
  · have hscan : 0 ∈ (scanRing .wrapping img nx.blockSize nx.xpDescBase nx.xpDescBlocks).log := by
      rw [scanRing, hback]
      refine Traced.mem_log_foldlM (hfront .wrapping) ?_
      have hadd : (Traced.lift (Build.wrapping.addU64 nx.xpDescBase (2 ^ 64 - nx.xpDescBase)) :
          Examining ℕ).outcome = .ok 0 := by
        rw [Traced.outcome_lift, Build.addU64, hsum, Nat.mod_self]
      refine Traced.mem_log_bind_right hadd (Traced.mem_log_bind_left ?_ _)
      exact Traced.mem_log_bind_left (List.mem_singleton_self 0) _
    exact Traced.mem_log_bind_left hscan _

/-- A build with overflow checks is the plain model, whatever the descriptor area is. -/
theorem resolveLiveCheckpoint_eq (hbase : nx.xpDescBase < 2 ^ 64)
    (hblocks : nx.xpDescBlocks < 2 ^ 64) :
    (resolveLiveCheckpoint .checked img nx).outcome =
      asRun (ApfsCore.resolveLiveCheckpoint img nx) := by
  by_cases hfit : nx.xpDescBase + nx.xpDescBlocks ≤ 2 ^ 64
  · exact (resolveLiveCheckpoint_of_fits .checked hblocks hfit).1
  · rw [Nat.not_le] at hfit
    by_cases hrefused : nx.xpDescIsTree = false ∧
        nxMinimumBlockSize ≤ nx.blockSize ∧ nx.blockSize ≤ nxMaximumBlockSize
    · obtain ⟨htree, hadm⟩ := hrefused
      rw [(resolveLiveCheckpoint_of_not_fits htree hadm hbase hblocks hfit).1,
        ApfsCore.resolveLiveCheckpoint, scanRing_of_not_fits hbase.le hfit, htree,
        if_neg Bool.false_ne_true, if_neg (not_not.mpr hadm)]
      rfl
    · -- the loops are not reached
      rw [resolveLiveCheckpoint, ApfsCore.resolveLiveCheckpoint]
      split_ifs with htree hadm
      · rfl
      · exact absurd ⟨Bool.eq_false_iff.mpr htree, hadm⟩ hrefused
      · rfl

/-! ### What either build returns -/

section Either

variable {build : Build} {blockSize base n xid : ℕ}

/-- The blocks that the slots of a ring are looked up at, the sums as `u64` gives them. -/
def ringAddrs (base n : ℕ) : List ℕ :=
  (List.range n).map fun i => (base + i) % 2 ^ 64

private theorem scanSlots_eq_ok {l : List ℕ} {st last : RingScan}
    (hst : st.checked + l.length < 2 ^ 64)
    (h : (l.foldlM (scanSlot build img blockSize base) st).outcome = .ok last) :
    last = l.foldl (fun st i => RingScan.slot img blockSize st ((base + i) % 2 ^ 64)) st := by
  induction l generalizing st with
  | nil =>
    cases h
    rfl
  | cons i l ih =>
    rw [List.foldlM_cons, Traced.outcome_bind] at h
    rw [List.length_cons] at hst
    obtain ⟨next, hnext, hlast⟩ := bind_eq_ok.mp h
    -- the address of the slot was computed
    have hadd : build.addU64 base i = .ok ((base + i) % 2 ^ 64) := by
      rw [scanSlot, Traced.outcome_bind, Traced.outcome_lift] at hnext
      obtain ⟨p, hp, -⟩ := bind_eq_ok.mp hnext
      rw [hp, addU64_eq_ok hp]
    rw [outcome_scanSlot hadd (by omega), Except.ok.injEq] at hnext
    have hchecked := checked_slot_le img blockSize st ((base + i) % 2 ^ 64)
    rw [List.foldl_cons, hnext]
    exact ih (by rw [← hnext]; omega) hlast

/-- A scan that ends has examined the blocks of the ring, in either build. -/
theorem scanRing_eq_ok {st : RingScan} (hn : n < 2 ^ 64)
    (h : (scanRing build img blockSize base n).outcome = .ok st) :
    st = (ringAddrs base n).foldl (fun st p => RingScan.slot img blockSize st p) .start := by
  rw [ringAddrs, List.foldl_map]
  refine scanSlots_eq_ok ?_ h
  rw [List.length_range, RingScan.start, Nat.zero_add]
  exact hn

/-- A scan that wraps around ends. -/
theorem exists_scanRing_wrapping (img : Image) (blockSize base : ℕ) (hn : n < 2 ^ 64) :
    ∃ st, (scanRing .wrapping img blockSize base n).outcome = .ok st := by
  refine ⟨_, outcome_scanSlots (fun i => (base + i) % 2 ^ 64) (fun i _ => rfl) ?_⟩
  rw [List.length_range, RingScan.start, Nat.zero_add]
  exact hn

/-- What the second loop collects, in either build. -/
theorem collectMappings_eq_ok {mappings : List CheckpointMapping} (hbs : blockSize ≠ 0)
    (h : (collectMappings build img blockSize base n xid).outcome = .ok mappings) :
    mappings = (ringAddrs base n).flatMap fun p =>
      match img.block blockSize p with
      | none => []
      | some buf => ApfsCore.slotMappings xid buf := by
  induction n generalizing mappings with
  | zero =>
    cases h
    rfl
  | succ n ih =>
    rw [collectMappings, List.range_succ, Traced.outcome_foldlM, List.foldlM_append] at h
    obtain ⟨front, hfront, hlast⟩ := bind_eq_ok.mp h
    rw [← Traced.outcome_foldlM] at hfront
    rw [List.foldlM_cons] at hlast
    obtain ⟨all, hlast, hall⟩ := bind_eq_ok.mp hlast
    cases hall
    have hadd : build.addU64 base n = .ok ((base + n) % 2 ^ 64) := by
      rw [collectSlot, Traced.outcome_bind, Traced.outcome_lift] at hlast
      obtain ⟨p, hp, -⟩ := bind_eq_ok.mp hlast
      rw [hp, addU64_eq_ok hp]
    rw [outcome_collectSlot hadd, readBlock_eq_block img hbs, Except.ok.injEq] at hlast
    rw [ringAddrs, List.range_succ, List.map_append, List.flatMap_append, ← ringAddrs, ← ih hfront,
      List.map_cons, List.map_nil, List.flatMap_singleton, ← hlast]
    cases img.block blockSize ((base + n) % 2 ^ 64) with
    | none => exact (List.append_nil _).symm
    | some buf => rfl

/-- Collecting while wrapping around ends. -/
theorem exists_collectMappings_wrapping (img : Image) (blockSize base n xid : ℕ) :
    ∃ mappings, (collectMappings .wrapping img blockSize base n xid).outcome = .ok mappings := by
  have hadd : ∀ i, Build.wrapping.addU64 base i = .ok ((base + i) % 2 ^ 64) := fun _ => rfl
  rw [collectMappings, Traced.outcome_foldlM]
  exact ⟨_, foldlM_eq_ok_foldl
    (fun mappings i _ => outcome_collectSlot (hadd i) xid mappings) []⟩

/-- **A resolution that succeeds, in either build**, returns the live superblock among the blocks
of the ring, and the mappings of its maps. -/
theorem resolveLiveCheckpoint_eq_ok {live : LiveCheckpoint} (hn : nx.xpDescBlocks < 2 ^ 64)
    (h : (resolveLiveCheckpoint build img nx).outcome = .ok live) :
    nx.xpDescIsTree = false ∧
      (nxMinimumBlockSize ≤ nx.blockSize ∧ nx.blockSize ≤ nxMaximumBlockSize) ∧
      LiveAmong img nx.blockSize (ringAddrs nx.xpDescBase nx.xpDescBlocks) live.xid
        live.superblockPaddr := by
  rw [resolveLiveCheckpoint] at h
  split_ifs at h with htree hadm
  · cases h
  · rw [Traced.outcome_bind] at h
    obtain ⟨st, hscan, h⟩ := bind_eq_ok.mp h
    have hbest := foldl_slot_best img (le_trans (by decide) hadm.1)
      (ringAddrs nx.xpDescBase nx.xpDescBlocks)
    rw [← scanRing_eq_ok hn hscan] at hbest
    cases hst : st.best with
    | none =>
      rw [hst] at h
      cases h
    | some best =>
      rw [hst, Traced.outcome_bind] at h
      obtain ⟨mappings, -, h⟩ := bind_eq_ok.mp h
      cases h
      rw [hst] at hbest
      exact ⟨Bool.eq_false_iff.mpr htree, hadm, hbest⟩
  · cases h

/-- A build without overflow checks resolves every ring that has a valid superblock. -/
theorem exists_resolve_wrapping {xid paddr : ℕ} (hn : nx.xpDescBlocks < 2 ^ 64)
    (htree : nx.xpDescIsTree = false)
    (hadm : nxMinimumBlockSize ≤ nx.blockSize ∧ nx.blockSize ≤ nxMaximumBlockSize)
    (hl : LiveAmong img nx.blockSize (ringAddrs nx.xpDescBase nx.xpDescBlocks) xid paddr) :
    ∃ mappings, (resolveLiveCheckpoint .wrapping img nx).outcome = .ok ⟨paddr, xid, mappings⟩ := by
  obtain ⟨st, hscan⟩ := exists_scanRing_wrapping img nx.blockSize nx.xpDescBase hn
  have hbest := foldl_slot_best img (le_trans (by decide) hadm.1)
    (ringAddrs nx.xpDescBase nx.xpDescBlocks)
  rw [← scanRing_eq_ok hn hscan] at hbest
  cases hst : st.best with
  | none =>
    rw [hst] at hbest
    exact absurd hl.valid (hbest paddr hl.mem xid)
  | some best =>
    rw [hst] at hbest
    obtain ⟨hxid, hpaddr⟩ := LiveAmong.unique hbest hl
    obtain ⟨mappings, hcollect⟩ := exists_collectMappings_wrapping img nx.blockSize nx.xpDescBase
      nx.xpDescBlocks xid
    refine ⟨mappings, ?_⟩
    rw [resolveLiveCheckpoint, htree, if_neg Bool.false_ne_true, if_neg (not_not.mpr hadm),
      Traced.outcome_bind, hscan, ok_bind, hst]
    dsimp only
    rw [hxid, hpaddr, Traced.outcome_bind, hcollect, ok_bind, Traced.outcome_pure]

end Either

end Runs

/-! ### Opening a container -/

/-- `ApfsContainer::open`. The parser reads at constant offsets, so it is that of the plain
model. -/
def ApfsContainer.open (build : Build) (img : Image) : Run ApfsCore.ApfsContainer :=
  match img.readExact 0 nxMinimumBlockSize with
  | .error _ => asRun (fail (.noValidSuperblock 0 0))
  | .ok block0 => do
    let bootstrap ← asRun (NxSuperblock.parse block0)
    if isFusion bootstrap then asRun (fail .unsupportedFusion)
    else do
      let live ← (resolveLiveCheckpoint build img bootstrap).outcome
      let buf ← asRun (img.readExact (saturatingMul live.superblockPaddr bootstrap.blockSize)
        bootstrap.blockSize)
      let superblock ← asRun (NxSuperblock.parse buf)
      .ok
        { superblock
          liveSuperblockPaddr := live.superblockPaddr
          checkpointMappings := live.mappings }

section Open

variable {build : Build} {img : Image} {c : ApfsCore.ApfsContainer}

/-- Where the resolution is that of the plain model, so is opening. -/
theorem ApfsContainer.open_eq_of_resolve (h : ∀ block0 nx,
    img.readExact 0 nxMinimumBlockSize = .ok block0 → NxSuperblock.parse block0 = .ok nx →
      (resolveLiveCheckpoint build img nx).outcome =
        asRun (ApfsCore.resolveLiveCheckpoint img nx)) :
    ApfsContainer.open build img = asRun (ApfsCore.ApfsContainer.open img) := by
  rw [ApfsContainer.open, ApfsCore.ApfsContainer.open]
  cases hread : img.readExact 0 nxMinimumBlockSize with
  | error e => rfl
  | ok block0 =>
    refine bind_eq_asRun rfl fun nx hparse => ite_eq_asRun (fun _ => rfl) fun _ => ?_
    refine bind_eq_asRun (h block0 nx hread hparse) fun live _ => ?_
    exact bind_eq_asRun rfl fun buf _ => bind_eq_asRun rfl fun superblock _ => rfl

/-- A build with overflow checks is the plain model. -/
theorem ApfsContainer.open_checked (img : Image) :
    ApfsContainer.open .checked img = asRun (ApfsCore.ApfsContainer.open img) :=
  ApfsContainer.open_eq_of_resolve fun _ _ _ hparse =>
    resolveLiveCheckpoint_eq (NxSuperblock.area_lt hparse).1 (NxSuperblock.area_lt hparse).2

/-- The steps of opening a container, in either build. -/
theorem ApfsContainer.open_eq_ok (h : ApfsContainer.open build img = .ok c) :
    ∃ block0 nx live buf, img.readExact 0 nxMinimumBlockSize = .ok block0 ∧
      NxSuperblock.parse block0 = .ok nx ∧ isFusion nx = false ∧
      (resolveLiveCheckpoint build img nx).outcome = .ok live ∧
      img.readExact (saturatingMul live.superblockPaddr nx.blockSize) nx.blockSize = .ok buf ∧
      NxSuperblock.parse buf = .ok c.superblock := by
  rw [ApfsContainer.open] at h
  cases hread : img.readExact 0 nxMinimumBlockSize with
  | error e =>
    rw [hread] at h
    cases h
  | ok block0 =>
    rw [hread] at h
    obtain ⟨nx, hparse, h⟩ := bind_eq_ok.mp h
    split_ifs at h with hfusion
    · cases h
    · obtain ⟨live, hlive, h⟩ := bind_eq_ok.mp h
      obtain ⟨buf, hbuf, h⟩ := bind_eq_ok.mp h
      obtain ⟨superblock, hsuper, h⟩ := bind_eq_ok.mp h
      cases h
      exact ⟨block0, nx, live, buf, rfl, asRun_eq_ok.mp hparse, Bool.eq_false_iff.mpr hfusion,
        hlive, asRun_eq_ok.mp hbuf, asRun_eq_ok.mp hsuper⟩

end Open

end Stepwise

end ApfsCore
