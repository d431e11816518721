import ApfsCore.Container.Superblock

/-!
# The checkpoint ring

`checkpoint.rs`. The descriptor area is scanned twice: once for the superblock of largest
transaction id among those whose type, magic and checksum are right, and once for the
checkpoint-map blocks of that transaction, whose mappings are collected. A block that does
not lie in the image is skipped. The block address `xp_desc_base + i` is computed by an
unchecked addition, which is a fault here where it leaves `u64`, as in a build with overflow
checks; `Stepwise.resolveLiveCheckpoint` has the other build as well.

`foldl_slot_best` is the loop invariant of the first scan: whatever mix of valid, torn, stale
and foreign blocks is examined, the scan keeps the first one of largest transaction id among the
valid ones seen so far. On a ring that fits the address space that is the one of lowest address
(`ringAfter_best`), and `Resolvable.resolve_cases` turns it into what the resolution returns.
-/

namespace ApfsCore

/-- `OBJECT_TYPE_NX_SUPERBLOCK`. -/
def objectTypeNxSuperblock : ℕ := 0x1

/-- `OBJECT_TYPE_CHECKPOINT_MAP`. -/
def objectTypeCheckpointMap : ℕ := 0xc

/-- `MAX_CPM_COUNT`. -/
def maxCpmCount : ℕ := 4096

/-- An ephemeral object id and the block it is stored at. -/
structure CheckpointMapping where
  oid : ℕ
  paddr : ℕ
  objType : ℕ
  subtype : ℕ
  deriving DecidableEq, Repr

/-- The live superblock and its ephemeral mappings. -/
structure LiveCheckpoint where
  superblockPaddr : ℕ
  xid : ℕ
  mappings : List CheckpointMapping

/-- `read_block`: `none` when the block's offset overflows or the block runs past the image. -/
def readBlock (img : Image) (paddr blockSize : ℕ) : Option Bytes :=
  match checkedMul paddr blockSize with
  | none => none
  | some offset => (img.readExact offset blockSize).toOption

/-! ### The scan for the live superblock -/

/-- The state of the first scan: the best `(xid, paddr)` so far, the slots read, and the last
magic met in a superblock-typed block. -/
structure RingScan where
  best : Option (ℕ × ℕ)
  checked : ℕ
  lastMagic : ℕ

/-- The scan before the first slot. -/
def RingScan.start : RingScan :=
  { best := none, checked := 0, lastMagic := 0 }

/-- What the scan does with the block of one slot. -/
def RingScan.visit (st : RingScan) (paddr : ℕ) (buf : Bytes) : RingScan :=
  let st := { st with checked := st.checked + 1 }
  match ObjPhys.parse buf with
  | none => st
  | some hdr =>
    if hdr.objType ≠ objectTypeNxSuperblock then st
    else
      let st := { st with lastMagic := leU32 buf 32 }
      if leU32 buf 32 ≠ nxMagic then st
      else if ¬ChecksumValid buf then st
      else if st.best.all fun b => b.1 < hdr.xid then { st with best := some (hdr.xid, paddr) }
      else st

/-- One slot of the scan. -/
def RingScan.slot (img : Image) (blockSize : ℕ) (st : RingScan) (paddr : ℕ) : RingScan :=
  match readBlock img paddr blockSize with
  | none => st
  | some buf => st.visit paddr buf

/-- The first loop of `resolve_live_checkpoint`. -/
def scanRing (img : Image) (blockSize descBase descBlocks : ℕ) : Result RingScan :=
  (List.range descBlocks).foldlM
    (fun st i => do
      let paddr ← addU64 descBase i
      .ok (st.slot img blockSize paddr))
    .start

/-! ### The scan for the checkpoint maps -/

/-- The mappings of a checkpoint-map block. Entries past the end of the block read as zero. -/
def cpmMappings (buf : Bytes) : List CheckpointMapping :=
  (List.range (min (leU32 buf 36) maxCpmCount)).map fun m =>
    let off := 40 + m * 40
    { objType := leU32 buf off
      subtype := leU32 buf (off + 4)
      oid := leU64 buf (off + 24)
      paddr := leU64 buf (off + 32) }

/-- What the second scan adds for the block of one slot. -/
def slotMappings (xid : ℕ) (buf : Bytes) : List CheckpointMapping :=
  match ObjPhys.parse buf with
  | none => []
  | some hdr =>
    if hdr.objType ≠ objectTypeCheckpointMap ∨ hdr.xid ≠ xid then []
    else if ¬ChecksumValid buf then []
    else cpmMappings buf

/-- The second loop of `resolve_live_checkpoint`. -/
def collectMappings (img : Image) (blockSize descBase descBlocks xid : ℕ) :
    Result (List CheckpointMapping) :=
  (List.range descBlocks).foldlM
    (fun mappings i => do
      let paddr ← addU64 descBase i
      match readBlock img paddr blockSize with
      | none => .ok mappings
      | some buf => .ok (mappings ++ slotMappings xid buf))
    []

/-- `resolve_live_checkpoint`, in a build with overflow checks. -/
def resolveLiveCheckpoint (img : Image) (bootstrap : NxSuperblock) : Result LiveCheckpoint :=
  if bootstrap.xpDescIsTree then fail (.checkpointTreeUnsupported "descriptor")
  else if ¬(nxMinimumBlockSize ≤ bootstrap.blockSize ∧
      bootstrap.blockSize ≤ nxMaximumBlockSize) then
    fail (.fieldOutOfRange "nx_superblock" "nx_block_size" bootstrap.blockSize nxMaximumBlockSize)
  else do
    let st ← scanRing img bootstrap.blockSize bootstrap.xpDescBase bootstrap.xpDescBlocks
    match st.best with
    | none => fail (.noValidSuperblock st.checked st.lastMagic)
    | some (xid, superblockPaddr) => do
      let mappings ← collectMappings img bootstrap.blockSize bootstrap.xpDescBase
        bootstrap.xpDescBlocks xid
      .ok { superblockPaddr, xid, mappings }

/-! ### What the scans see of a slot -/

/-- Reading a slot is reading the block of that number. -/
theorem readBlock_eq_block (img : Image) {blockSize : ℕ} (hbs : blockSize ≠ 0) (paddr : ℕ) :
    readBlock img paddr blockSize = img.block blockSize paddr := by
  rw [readBlock, checkedMul]
  by_cases h : paddr * blockSize < 2 ^ 64
  · simp only [if_pos h, Image.readExact, if_neg hbs, Image.block]
    cases slice img.bytes (paddr * blockSize) (paddr * blockSize + blockSize) with
    | none => rfl
    | some buf => rfl
  · simp only [if_neg h]
    exact (Image.block_eq_none_of_le (Nat.le_of_not_lt h)).symm

/-- Block `paddr` lies in the image and is a superblock of transaction `xid`: its type, magic
and checksum are right. -/
def SuperblockAt (img : Image) (blockSize paddr xid : ℕ) : Prop :=
  ∃ buf, img.block blockSize paddr = some buf ∧ leU32 buf 24 &&& 0xffff = objectTypeNxSuperblock ∧
    leU32 buf 32 = nxMagic ∧ ChecksumValid buf ∧ leU64 buf 16 = xid

/-- A block has one transaction id. -/
theorem SuperblockAt.unique {img : Image} {blockSize paddr x y : ℕ}
    (hx : SuperblockAt img blockSize paddr x) (hy : SuperblockAt img blockSize paddr y) :
    x = y := by
  obtain ⟨buf, hbuf, -, -, -, rfl⟩ := hx
  obtain ⟨buf', hbuf', -, -, -, rfl⟩ := hy
  rw [hbuf, Option.some.injEq] at hbuf'
  rw [hbuf']

/-- One slot either holds a valid superblock, which replaces the best one exactly when it is
strictly newer, or leaves the best one as it is. -/
private theorem RingScan.slot_best (img : Image) {blockSize : ℕ} (hbs : 32 ≤ blockSize)
    (st : RingScan) (paddr : ℕ) :
    (∃ xid, SuperblockAt img blockSize paddr xid ∧ (st.slot img blockSize paddr).best =
      if st.best.all fun b => b.1 < xid then some (xid, paddr) else st.best) ∨
    ((∀ xid, ¬SuperblockAt img blockSize paddr xid) ∧
      (st.slot img blockSize paddr).best = st.best) := by
  rw [RingScan.slot]
  rw [readBlock_eq_block img (by omega)]
  cases hbuf : img.block blockSize paddr with
  | none =>
    right
    refine ⟨?_, rfl⟩
    rintro xid ⟨buf, h, -⟩
    rw [hbuf] at h
    cases h
  | some buf =>
    have hlen : ¬buf.length < objPhysLen := by
      rw [Image.length_of_block hbuf, objPhysLen]
      omega
    -- a block that fails one of the three tests is no superblock of any transaction
    have hother : ¬(leU32 buf 24 &&& 0xffff = objectTypeNxSuperblock ∧ leU32 buf 32 = nxMagic ∧
        ChecksumValid buf) → ∀ xid, ¬SuperblockAt img blockSize paddr xid := by
      rintro hno xid ⟨buf', h, htype, hmagic, hsum, -⟩
      rw [hbuf, Option.some.injEq] at h
      subst h
      exact hno ⟨htype, hmagic, hsum⟩
    simp only [RingScan.visit, ObjPhys.parse, if_neg hlen, ObjPhys.objType]
    by_cases htype : leU32 buf 24 &&& 0xffff = objectTypeNxSuperblock
    · rw [if_neg (not_not.mpr htype)]
      by_cases hmagic : leU32 buf 32 = nxMagic
      · rw [if_neg (not_not.mpr hmagic)]
        by_cases hsum : ChecksumValid buf
        · left
          refine ⟨leU64 buf 16, ⟨buf, hbuf, htype, hmagic, hsum, rfl⟩, ?_⟩
          rw [if_neg (not_not.mpr hsum)]
          split_ifs <;> rfl
        · right
          rw [if_pos hsum]
          exact ⟨hother fun h => hsum h.2.2, rfl⟩
      · right
        rw [if_pos hmagic]
        exact ⟨hother fun h => hmagic h.2.1, rfl⟩
    · right
      rw [if_pos htype]
      exact ⟨hother fun h => htype h.1, rfl⟩

/-- The live superblock among the blocks of a list, examined in order: of those of largest
transaction id, the first. -/
structure LiveAmong (img : Image) (blockSize : ℕ) (slots : List ℕ) (xid paddr : ℕ) : Prop where
  valid : SuperblockAt img blockSize paddr xid
  newest : ∀ p ∈ slots, ∀ x, SuperblockAt img blockSize p x → x ≤ xid
  first : ∃ front back, slots = front ++ paddr :: back ∧
    ∀ p ∈ front, ¬SuperblockAt img blockSize p xid

/-- What the scan knows after the blocks of a list. -/
def BestAmong (img : Image) (blockSize : ℕ) (slots : List ℕ) : Option (ℕ × ℕ) → Prop
  | none => ∀ p ∈ slots, ∀ x, ¬SuperblockAt img blockSize p x
  | some (xid, paddr) => LiveAmong img blockSize slots xid paddr

section Scan

variable {img : Image} {blockSize p xid xid' paddr paddr' : ℕ} {slots : List ℕ}
  {best : Option (ℕ × ℕ)}

theorem LiveAmong.mem (h : LiveAmong img blockSize slots xid paddr) : paddr ∈ slots := by
  obtain ⟨front, back, rfl, -⟩ := h.first
  exact List.mem_append_right _ List.mem_cons_self

/-- There is one live superblock. -/
theorem LiveAmong.unique (h : LiveAmong img blockSize slots xid paddr)
    (h' : LiveAmong img blockSize slots xid' paddr') : xid = xid' ∧ paddr = paddr' := by
  classical
  obtain rfl : xid = xid' :=
    (h'.newest paddr h.mem xid h.valid).antisymm (h.newest paddr' h'.mem xid' h'.valid)
  -- both are what a search for the transaction finds first
  have hfind : ∀ {p}, LiveAmong img blockSize slots xid p →
      (slots.find? fun p => decide (SuperblockAt img blockSize p xid)) = some p := by
    intro p hp
    obtain ⟨front, back, hslots, hfront⟩ := hp.first
    refine List.find?_eq_some_iff_append.mpr ⟨decide_eq_true hp.valid, front, back, hslots, ?_⟩
    intro q hq
    rw [Bool.not_eq_true', decide_eq_false_iff_not]
    exact hfront q hq
  exact ⟨rfl, Option.some.inj ((hfind h).symm.trans (hfind h'))⟩

/-- One more block that is no valid superblock changes nothing. -/
private theorem BestAmong.skip (h : BestAmong img blockSize slots best)
    (hno : ∀ x, ¬SuperblockAt img blockSize p x) :
    BestAmong img blockSize (slots ++ [p]) best := by
  have hold : ∀ q ∈ slots ++ [p], ∀ x, SuperblockAt img blockSize q x → q ∈ slots := by
    intro q hq x hx
    rcases List.mem_append.mp hq with hq | hq
    · exact hq
    · rw [List.mem_singleton.mp hq] at hx
      exact absurd hx (hno x)
  cases best with
  | none => exact fun q hq x hx => h q (hold q hq x hx) x hx
  | some b =>
    obtain ⟨front, back, hslots, hfront⟩ := h.first
    refine ⟨h.valid, fun q hq x hx => h.newest q (hold q hq x hx) x hx, front, back ++ [p], ?_,
      hfront⟩
    rw [hslots, List.append_assoc, List.cons_append]

/-- One more valid superblock replaces the best one when it is strictly newer. -/
private theorem BestAmong.meet (h : BestAmong img blockSize slots best) {x : ℕ}
    (hx : SuperblockAt img blockSize p x) :
    BestAmong img blockSize (slots ++ [p])
      (if best.all fun b => b.1 < x then some (x, p) else best) := by
  cases best with
  | none =>
    refine ⟨hx, fun q hq y hy => ?_, slots, [], rfl, fun q hq => h q hq x⟩
    rcases List.mem_append.mp hq with hq | hq
    · exact absurd hy (h q hq y)
    · rw [List.mem_singleton.mp hq] at hy
      exact (hy.unique hx).le
  | some b =>
    obtain ⟨xid, paddr⟩ := b
    simp only [Option.all_some, decide_eq_true_eq]
    split_ifs with hlt
    · -- strictly newer than all before it: the new block is the only one of its transaction
      refine ⟨hx, fun q hq y hy => ?_, slots, [], rfl, fun q hq hq' => ?_⟩
      · rcases List.mem_append.mp hq with hq | hq
        · exact (h.newest q hq y hy).trans hlt.le
        · rw [List.mem_singleton.mp hq] at hy
          exact (hy.unique hx).le
      · exact absurd (h.newest q hq x hq') (Nat.not_le.mpr hlt)
    · obtain ⟨front, back, hslots, hfront⟩ := h.first
      refine ⟨h.valid, fun q hq y hy => ?_, front, back ++ [p], ?_, hfront⟩
      · rcases List.mem_append.mp hq with hq | hq
        · exact h.newest q hq y hy
        · rw [List.mem_singleton.mp hq] at hy
          exact (hy.unique hx).le.trans (Nat.le_of_not_lt hlt)
      · rw [hslots, List.append_assoc, List.cons_append]

/-- **Invariant of the scan.** Whatever blocks are examined, the best one is the live superblock
among them. -/
theorem foldl_slot_best (img : Image) (hbs : 32 ≤ blockSize) (slots : List ℕ) :
    BestAmong img blockSize slots
      (slots.foldl (fun st p => RingScan.slot img blockSize st p) .start).best := by
  induction slots using List.reverseRecOn with
  | nil => exact fun p hp => absurd hp List.not_mem_nil
  | append_singleton slots p ih =>
    rw [List.foldl_append, List.foldl_cons, List.foldl_nil]
    rcases RingScan.slot_best img hbs
        (slots.foldl (fun st p => RingScan.slot img blockSize st p) .start) p with
      ⟨x, hx, hbest⟩ | ⟨hno, hbest⟩
    · rw [hbest]
      exact ih.meet hx
    · rw [hbest]
      exact ih.skip hno

end Scan

/-! ### A ring that fits the address space -/

/-- The live superblock of the slots `base..base + n`: the lowest-addressed valid one among
those of largest transaction id. -/
structure IsLive (img : Image) (blockSize base n xid paddr : ℕ) : Prop where
  inRing : base ≤ paddr ∧ paddr < base + n
  valid : SuperblockAt img blockSize paddr xid
  newest : ∀ p x, base ≤ p → p < base + n → SuperblockAt img blockSize p x → x ≤ xid
  lowest : ∀ p, base ≤ p → p < base + n → SuperblockAt img blockSize p xid → paddr ≤ p

/-- What the scan knows after `n` slots. -/
def BestOfRing (img : Image) (blockSize base n : ℕ) : Option (ℕ × ℕ) → Prop
  | none => ∀ p x, base ≤ p → p < base + n → ¬SuperblockAt img blockSize p x
  | some (xid, paddr) => IsLive img blockSize base n xid paddr

section Ring

variable {img : Image} {blockSize base n : ℕ}

/-- The addresses of a ring that fits the address space are computed without overflow. -/
private theorem addU64_of_mem_range (hfit : base + n ≤ 2 ^ 64) {i : ℕ} (hi : i ∈ List.range n) :
    addU64 base i = .ok (base + i) := by
  have := List.mem_range.mp hi
  exact if_pos (by omega)

/-- The scan after the first `n` slots of a ring that fits the address space. -/
def ringAfter (img : Image) (blockSize base n : ℕ) : RingScan :=
  (List.range n).foldl (fun st i => RingScan.slot img blockSize st (base + i)) .start

/-- The scan of a ring that fits the address space does not fail. -/
theorem scanRing_eq (hfit : base + n ≤ 2 ^ 64) :
    scanRing img blockSize base n = .ok (ringAfter img blockSize base n) := by
  refine foldlM_eq_ok_foldl (fun st i hi => ?_) _
  rw [addU64_of_mem_range hfit hi]
  rfl

/-- The blocks of such a ring. -/
private theorem mem_ring {p : ℕ} :
    p ∈ (List.range n).map (base + ·) ↔ base ≤ p ∧ p < base + n := by
  rw [List.mem_map]
  constructor
  · rintro ⟨i, hi, rfl⟩
    have := List.mem_range.mp hi
    omega
  · exact fun ⟨hle, hlt⟩ => ⟨p - base, List.mem_range.mpr (by omega), by omega⟩

/-- The first of its blocks is the one of lowest address. -/
private theorem LiveAmong.isLive {xid paddr : ℕ}
    (h : LiveAmong img blockSize ((List.range n).map (base + ·)) xid paddr) :
    IsLive img blockSize base n xid paddr where
  inRing := mem_ring.mp h.mem
  valid := h.valid
  newest p x hlow hhigh hx := h.newest p (mem_ring.mpr ⟨hlow, hhigh⟩) x hx
  lowest p hlow hhigh hp := by
    obtain ⟨front, back, hslots, hfront⟩ := h.first
    have hsorted : ((List.range n).map (base + ·)).Pairwise (· < ·) := by
      rw [List.pairwise_map]
      exact List.pairwise_lt_range.imp fun hlt => Nat.add_lt_add_left hlt base
    have hmem := mem_ring.mpr ⟨hlow, hhigh⟩
    rw [hslots] at hsorted hmem
    rcases List.mem_append.mp hmem with hmem | hmem
    · exact absurd hp (hfront p hmem)
    · rcases List.mem_cons.mp hmem with rfl | hmem
      · exact le_rfl
      · exact ((List.pairwise_cons.mp (List.pairwise_append.mp hsorted).2.1).1 p hmem).le

/-- After any number of slots the best slot is the live superblock of the slots seen. -/
theorem ringAfter_best (img : Image) (hbs : 32 ≤ blockSize) (base n : ℕ) :
    BestOfRing img blockSize base n (ringAfter img blockSize base n).best := by
  have hbest := foldl_slot_best img hbs ((List.range n).map (base + ·))
  rw [List.foldl_map] at hbest
  rw [ringAfter]
  cases hst : ((List.range n).foldl
      (fun st i => RingScan.slot img blockSize st (base + i)) .start).best with
  | none =>
    rw [hst] at hbest
    exact fun p x hlow hhigh => hbest p (mem_ring.mpr ⟨hlow, hhigh⟩) x
  | some b =>
    rw [hst] at hbest
    exact hbest.isLive

/-- Collecting the mappings of a ring that fits the address space does not fail. -/
theorem collectMappings_of_fits (img : Image) (blockSize : ℕ) (hfit : base + n ≤ 2 ^ 64)
    (xid : ℕ) : ∃ mappings, collectMappings img blockSize base n xid = .ok mappings := by
  refine ⟨_, foldlM_eq_ok_foldl (g := fun mappings i =>
    match readBlock img (base + i) blockSize with
    | none => mappings
    | some buf => mappings ++ slotMappings xid buf) (fun ms i hi => ?_) _⟩
  rw [addU64_of_mem_range hfit hi, ok_bind]
  cases readBlock img (base + i) blockSize with
  | none => rfl
  | some buf => rfl

end Ring

/-- A bootstrap superblock that can be resolved: a contiguous descriptor area that fits the
address space, and an admitted block size. -/
structure Resolvable (nx : NxSuperblock) : Prop where
  contiguous : nx.xpDescIsTree = false
  admitted : nxMinimumBlockSize ≤ nx.blockSize ∧ nx.blockSize ≤ nxMaximumBlockSize
  fits : nx.xpDescBase + nx.xpDescBlocks ≤ 2 ^ 64

/-- The resolution either succeeds with the live superblock of the ring, or there is no valid
superblock in it and the resolution says so. -/
theorem Resolvable.resolve_cases {nx : NxSuperblock} (h : Resolvable nx) (img : Image) :
    (∃ live, resolveLiveCheckpoint img nx = .ok live ∧
      IsLive img nx.blockSize nx.xpDescBase nx.xpDescBlocks live.xid live.superblockPaddr) ∨
    ((∀ p x, nx.xpDescBase ≤ p → p < nx.xpDescBase + nx.xpDescBlocks →
        ¬SuperblockAt img nx.blockSize p x) ∧
      ∃ checked lastMagic,
        resolveLiveCheckpoint img nx = fail (.noValidSuperblock checked lastMagic)) := by
  have hbs : 32 ≤ nx.blockSize := le_trans (by decide) h.admitted.1
  have hbest := ringAfter_best img hbs nx.xpDescBase nx.xpDescBlocks
  rw [resolveLiveCheckpoint]
  rw [h.contiguous, if_neg Bool.false_ne_true, if_neg (not_not.mpr h.admitted),
    scanRing_eq h.fits, ok_bind]
  generalize ringAfter img nx.blockSize nx.xpDescBase nx.xpDescBlocks = st at hbest ⊢
  cases hst : st.best with
  | none =>
    rw [hst] at hbest
    exact .inr ⟨hbest, st.checked, st.lastMagic, rfl⟩
  | some b =>
    obtain ⟨xid, paddr⟩ := b
    rw [hst] at hbest
    obtain ⟨mappings, hmap⟩ := collectMappings_of_fits img nx.blockSize h.fits xid
    refine .inl ⟨⟨paddr, xid, mappings⟩, ?_, hbest⟩
    simp only [hmap, ok_bind]

end ApfsCore
