import ApfsCore.Container.Reaper

/-!
# The chain of reap lists

The image decides where the chain of reap lists goes: it may end, run on, or close on itself
behind a tail. `ReapRun` is the loop of `pending_objects` as an execution that may or may not
end, with the lists it expands; `ReapChain` is the chain itself. Every loop ends, expands no list
twice and returns what `reapChain` computes (`ReapRun.eq_reapChain`, `exists_reapRun`); what it
returns on a chain that ends, repeats or is too long is read off the chain.
-/

namespace ApfsCore

section Chain

variable (img : Image) (mappings : List CheckpointMapping) (blockSize : ℕ)

/-- The list an ephemeral object id names: the verified block the first mapping with that id
points to. -/
def ReapListAt (oid : ℕ) (list : Bytes) : Prop :=
  ∃ m, (mappings.find? fun m => m.oid == oid) = some m ∧ BlockVerified img blockSize m.paddr list

/-- The chain from an object id through the given lists, to the id it goes on with. -/
inductive ReapChain : ℕ → List (ℕ × Bytes) → ℕ → Prop
  | nil (oid : ℕ) : ReapChain oid [] oid
  | cons {oid next : ℕ} {list : Bytes} {lists : List (ℕ × Bytes)} :
      oid ≠ 0 → ReapListAt img mappings blockSize oid list →
        ReapChain (leU64 list 32) lists next → ReapChain oid ((oid, list) :: lists) next

/-- The `while` loop of `pending_objects`, from the ids seen, the next id and the objects
collected: the ids whose lists are expanded, and the result. -/
inductive ReapRun : List ℕ → ℕ → List ReapPending → List ℕ → Result (List ReapPending) → Prop
  | finish (seen : List ℕ) (out : List ReapPending) : ReapRun seen 0 out [] (.ok out)
  | guard {seen : List ℕ} {oid : ℕ} {out : List ReapPending} :
      oid ≠ 0 → (oid ∈ seen ∨ maxReapLists < seen.length + 1) →
        ReapRun seen oid out [] (fail (.cycleGuard maxReapLists))
  | unmapped {seen : List ℕ} {oid : ℕ} {out : List ReapPending} :
      oid ≠ 0 → ¬(oid ∈ seen ∨ maxReapLists < seen.length + 1) →
        (mappings.find? fun m => m.oid == oid) = none →
          ReapRun seen oid out [] (fail (.omapUnresolved oid 0))
  | unread {seen : List ℕ} {oid : ℕ} {out : List ReapPending} {m : CheckpointMapping} {e : Fault} :
      oid ≠ 0 → ¬(oid ∈ seen ∨ maxReapLists < seen.length + 1) →
        (mappings.find? fun m => m.oid == oid) = some m →
          readObjBlock img m.paddr blockSize = .error e → ReapRun seen oid out [oid] (.error e)
  | expand {seen expanded : List ℕ} {oid : ℕ} {out : List ReapPending} {m : CheckpointMapping}
      {list : Bytes} {result : Result (List ReapPending)} :
      oid ≠ 0 → ¬(oid ∈ seen ∨ maxReapLists < seen.length + 1) →
        (mappings.find? fun m => m.oid == oid) = some m →
          readObjBlock img m.paddr blockSize = .ok list →
            ReapRun (oid :: seen) (leU64 list 32) (out ++ reapListEntries list blockSize) expanded
              result →
              ReapRun seen oid out (oid :: expanded) result

end Chain

/-! ### The loop ends -/

section Loop

variable {img : Image} {mappings : List CheckpointMapping} {blockSize : ℕ}

/-- No list is expanded twice, nor one that was seen before. -/
theorem ReapRun.nodup {seen expanded : List ℕ} {oid : ℕ} {out : List ReapPending}
    {result : Result (List ReapPending)}
    (h : ReapRun img mappings blockSize seen oid out expanded result) :
    expanded.Nodup ∧ ∀ o ∈ expanded, o ∉ seen := by
  induction h with
  | finish seen out => exact ⟨.nil, fun o ho => absurd ho List.not_mem_nil⟩
  | guard => exact ⟨.nil, fun o ho => absurd ho List.not_mem_nil⟩
  | unmapped => exact ⟨.nil, fun o ho => absurd ho List.not_mem_nil⟩
  | unread _ hguard _ _ =>
    refine ⟨List.nodup_singleton _, fun o ho => ?_⟩
    rw [List.mem_singleton] at ho
    subst ho
    exact fun hseen => hguard (.inl hseen)
  | expand _ hguard _ _ _ ih =>
    obtain ⟨hnodup, hnew⟩ := ih
    refine ⟨List.nodup_cons.mpr ⟨fun hmem => ?_, hnodup⟩, fun o ho => ?_⟩
    · exact hnew _ hmem List.mem_cons_self
    · rcases List.mem_cons.mp ho with rfl | ho
      · exact fun hseen => hguard (.inl hseen)
      · exact fun hseen => hnew o ho (List.mem_cons_of_mem _ hseen)

/-- One more list, when the guard lets it pass. -/
private theorem reapChain_of_mapped {n : ℕ} {seen : List ℕ} {oid : ℕ} {m : CheckpointMapping}
    (hoid : oid ≠ 0) (hseen : oid ∉ seen)
    (hmap : (mappings.find? fun m => m.oid == oid) = some m) :
    reapChain img mappings blockSize (n + 1) seen oid =
      readObjBlock img m.paddr blockSize >>= fun list =>
        reapChain img mappings blockSize n (oid :: seen) (leU64 list 32) >>= fun rest =>
          .ok (reapListEntries list blockSize ++ rest) := by
  rw [reapChain, if_neg hoid, if_neg hseen, hmap]

private theorem reapChain_zero {n : ℕ} {seen : List ℕ} :
    reapChain img mappings blockSize n seen 0 = .ok [] := by
  cases n with
  | zero => rfl
  | succ n => rw [reapChain, if_pos rfl]

/-- Every execution of the loop returns what `reapChain` computes. -/
theorem ReapRun.eq_reapChain {seen expanded : List ℕ} {oid : ℕ} {out : List ReapPending}
    {result : Result (List ReapPending)}
    (h : ReapRun img mappings blockSize seen oid out expanded result) {n : ℕ}
    (hn : seen.length + n = maxReapLists) :
    result = (out ++ ·) <$> reapChain img mappings blockSize n seen oid := by
  -- past the guard there is room for one more list
  have hroom : ∀ {seen : List ℕ} {oid n : ℕ},
      ¬(oid ∈ seen ∨ maxReapLists < seen.length + 1) → seen.length + n = maxReapLists →
        ∃ k, n = k + 1 ∧ seen.length + 1 + k = maxReapLists := by
    intro seen oid n hguard hn
    rw [not_or] at hguard
    exact ⟨n - 1, by omega, by omega⟩
  induction h generalizing n with
  | finish seen out => rw [reapChain_zero, map_ok, List.append_nil]
  | guard hoid hguard =>
    cases n with
    | zero =>
      rw [reapChain, if_neg hoid]
      rfl
    | succ n =>
      rw [reapChain, if_neg hoid, if_pos (hguard.resolve_right (by omega))]
      rfl
  | unmapped hoid hguard hmap =>
    obtain ⟨k, rfl, -⟩ := hroom hguard hn
    rw [reapChain, if_neg hoid, if_neg fun hseen => hguard (.inl hseen), hmap]
    rfl
  | unread hoid hguard hmap hread =>
    obtain ⟨k, rfl, -⟩ := hroom hguard hn
    rw [reapChain_of_mapped hoid (fun hseen => hguard (.inl hseen)) hmap, hread]
    rfl
  | expand hoid hguard hmap hread _ ih =>
    obtain ⟨k, rfl, hk⟩ := hroom hguard hn
    rw [ih hk, reapChain_of_mapped hoid (fun hseen => hguard (.inl hseen)) hmap, hread, ok_bind]
    cases reapChain img mappings blockSize k _ _ with
    | error e => rfl
    | ok rest => rw [map_ok, ok_bind, map_ok, List.append_assoc]

/-- The loop ends: with room for `n` more lists, it does so after at most `n`. -/
theorem exists_reapRun (img : Image) (mappings : List CheckpointMapping) (blockSize : ℕ) {n : ℕ}
    {seen : List ℕ} (hn : seen.length + n = maxReapLists) (oid : ℕ)
    (out : List ReapPending) :
    ∃ expanded result, ReapRun img mappings blockSize seen oid out expanded result := by
  induction n generalizing seen oid out with
  | zero =>
    by_cases hoid : oid = 0
    · subst hoid
      exact ⟨_, _, .finish seen out⟩
    · exact ⟨_, _, .guard hoid (.inr (by omega))⟩
  | succ n ih =>
    by_cases hoid : oid = 0
    · subst hoid
      exact ⟨_, _, .finish seen out⟩
    by_cases hguard : oid ∈ seen ∨ maxReapLists < seen.length + 1
    · exact ⟨_, _, .guard hoid hguard⟩
    cases hmap : mappings.find? fun m => m.oid == oid with
    | none => exact ⟨_, _, .unmapped hoid hguard hmap⟩
    | some m =>
      cases hread : readObjBlock img m.paddr blockSize with
      | error e => exact ⟨_, _, .unread hoid hguard hmap hread⟩
      | ok list =>
        have hroom : (oid :: seen).length + n = maxReapLists := by
          rw [List.length_cons]
          omega
        obtain ⟨expanded, result, hrun⟩ := ih hroom (leU64 list 32)
          (out ++ reapListEntries list blockSize)
        exact ⟨_, _, .expand hoid hguard hmap hread hrun⟩

end Loop

/-! ### What the chain decides -/

section Decided

variable {img : Image} {mappings : List CheckpointMapping} {blockSize : ℕ}

/-- A list on the chain is read. -/
private theorem ReapListAt.reapChain_eq {oid : ℕ} {list : Bytes} (hbs : blockSize ≠ 0)
    (h : ReapListAt img mappings blockSize oid list) (hoid : oid ≠ 0) {n : ℕ} {seen : List ℕ}
    (hseen : oid ∉ seen) :
    reapChain img mappings blockSize (n + 1) seen oid =
      reapChain img mappings blockSize n (oid :: seen) (leU64 list 32) >>= fun rest =>
        .ok (reapListEntries list blockSize ++ rest) := by
  obtain ⟨m, hmap, hlist⟩ := h
  rw [reapChain_of_mapped hoid hseen hmap, (readObjBlock_eq_ok_iff hbs).mpr hlist, ok_bind]

/-- A chain of distinct lists that ends within the cap is followed to its end. -/
theorem ReapChain.reapChain_eq_ok (hbs : blockSize ≠ 0) {oid : ℕ} {lists : List (ℕ × Bytes)}
    (h : ReapChain img mappings blockSize oid lists 0) (hnodup : (lists.map Prod.fst).Nodup)
    {n : ℕ} (hn : lists.length ≤ n) {seen : List ℕ}
    (hseen : ∀ o ∈ lists.map Prod.fst, o ∉ seen) :
    reapChain img mappings blockSize n seen oid =
      .ok (lists.flatMap fun l => reapListEntries l.2 blockSize) := by
  generalize hlast : (0 : ℕ) = last at h
  induction h generalizing n seen with
  | nil oid =>
    subst hlast
    exact reapChain_zero
  | @cons oid next list lists hoid hlist _ ih =>
    rw [List.map_cons, List.nodup_cons] at hnodup
    rw [List.length_cons] at hn
    obtain ⟨k, rfl⟩ : ∃ k, n = k + 1 := ⟨n - 1, by omega⟩
    -- the lists that follow are not this one, and were not seen before it
    have hseen' : ∀ o ∈ lists.map Prod.fst, o ∉ oid :: seen := by
      intro o ho hmem
      rcases List.mem_cons.mp hmem with rfl | hmem
      · exact hnodup.1 ho
      · exact hseen o (List.mem_cons_of_mem _ ho) hmem
    rw [hlist.reapChain_eq hbs hoid (hseen _ List.mem_cons_self),
      ih hnodup.2 (by omega) hseen' hlast, ok_bind, List.flatMap_cons]

/-- A chain that comes back to a list, or goes on past the cap, is refused. -/
theorem ReapChain.reapChain_eq_cycleGuard (hbs : blockSize ≠ 0) {oid next : ℕ}
    {lists : List (ℕ × Bytes)} (h : ReapChain img mappings blockSize oid lists next)
    (hnext : next ≠ 0) {n : ℕ} {seen : List ℕ}
    (hstop : next ∈ seen ∨ next ∈ lists.map Prod.fst ∨ n ≤ lists.length) :
    reapChain img mappings blockSize n seen oid = fail (.cycleGuard maxReapLists) := by
  induction h generalizing n seen with
  | nil oid =>
    cases n with
    | zero => rw [reapChain, if_neg hnext]
    | succ n =>
      have hmem : oid ∈ seen := by simpa using hstop
      rw [reapChain, if_neg hnext, if_pos hmem]
  | @cons oid next list lists hoid hlist _ ih =>
    cases n with
    | zero => rw [reapChain, if_neg hoid]
    | succ n =>
      by_cases hmem : oid ∈ seen
      · rw [reapChain, if_neg hoid, if_pos hmem]
      · rw [hlist.reapChain_eq hbs hoid hmem, ih hnext, fail_bind]
        rw [List.map_cons, List.mem_cons, List.length_cons, Nat.succ_le_succ_iff] at hstop
        rw [List.mem_cons]
        tauto

end Decided

/-! ### The records on disk -/

/-- The object that slot `i` of a reap list names: the object id at 24 bytes into the slot, and its
type at 8. -/
def reapSlot (list : Bytes) (i : ℕ) : ReapPending where
  oid := leU64 list (64 + 40 * i + 24)
  objType := leU32 list (64 + 40 * i + 8)

/-- The entries of a list are those of its slots that name an object. -/
private theorem reapListEntries_eq_filter (list : Bytes) (blockSize : ℕ) :
    reapListEntries list blockSize =
      ((List.range (min (leU32 list 48) ((blockSize - 64) / 40))).map (reapSlot list)).filter
        fun o => o.oid ≠ 0 := by
  rw [reapListEntries, ← List.filterMap_eq_filter, List.filterMap_map]
  refine List.filterMap_congr fun i _ => ?_
  rw [Function.comp_apply, Option.guard_apply, reapSlot, Nat.mul_comm 40 i]
  simp only [decide_eq_true_eq]

/-- What `pending_objects` does on an image whose reaper block is the given one. -/
structure ReapTraversal (img : Image) (reaperPaddr : ℕ) (reaper : Bytes)
    (mappings : List CheckpointMapping) (blockSize : ℕ) : Prop where
  /-- A chain that ends is reported in full: the object in progress, if there is one, and from each
  list the slots in use that name an object. -/
  complete : ∀ lists, ReapChain img mappings blockSize (leU64 reaper 48) lists 0 →
    (lists.map Prod.fst).Nodup → lists.length ≤ maxReapLists →
      pendingObjects img reaperPaddr mappings blockSize =
        .ok ((if leU64 reaper 88 = 0 then [] else [⟨leU64 reaper 88, leU32 reaper 72⟩]) ++
          lists.flatMap fun l =>
            ((List.range (min (leU32 l.2 48) ((blockSize - 64) / 40))).map (reapSlot l.2)).filter
              fun o => o.oid ≠ 0)
  guarded : ∀ lists next, ReapChain img mappings blockSize (leU64 reaper 48) lists next →
    next ≠ 0 → (next ∈ lists.map Prod.fst ∨ maxReapLists ≤ lists.length) →
      pendingObjects img reaperPaddr mappings blockSize = fail (.cycleGuard maxReapLists)
  terminates : ∃ expanded, ReapRun img mappings blockSize [] (leU64 reaper 48)
    (reapInProgress reaper) expanded (pendingObjects img reaperPaddr mappings blockSize)
  expands_once : ∀ out expanded result, ReapRun img mappings blockSize [] (leU64 reaper 48)
    out expanded result → expanded.Nodup

/-- **Reap lists.** With a verified reaper block, the loop ends whatever the image holds and
expands no list twice; a chain of distinct lists that ends is reported in full, and one that
comes back to itself or has more lists than the cap is refused. -/
theorem reap_traversal (img : Image) (reaperPaddr : ℕ) (reaper : Bytes)
    (mappings : List CheckpointMapping) (blockSize : ℕ) (hbs : blockSize ≠ 0)
    (hreaper : BlockVerified img blockSize reaperPaddr reaper) :
    ReapTraversal img reaperPaddr reaper mappings blockSize := by
  have hpending : pendingObjects img reaperPaddr mappings blockSize =
      (reapInProgress reaper ++ ·) <$>
        reapChain img mappings blockSize maxReapLists [] (leU64 reaper 48) := by
    rw [pendingObjects, (readObjBlock_eq_ok_iff hbs).mpr hreaper, ok_bind]
    cases reapChain img mappings blockSize maxReapLists [] (leU64 reaper 48) <;> rfl
  refine ⟨fun lists hchain hnodup hlen => ?_, fun lists next hchain hnext hstop => ?_, ?_,
    fun out expanded result hrun => hrun.nodup.1⟩
  · rw [hpending, hchain.reapChain_eq_ok hbs hnodup hlen fun _ _ => List.not_mem_nil, map_ok,
      reapInProgress, ite_not]
    simp only [reapListEntries_eq_filter]
  · rw [hpending, hchain.reapChain_eq_cycleGuard hbs hnext (.inr hstop)]
    rfl
  · have hroom : ([] : List ℕ).length + maxReapLists = maxReapLists := Nat.zero_add _
    obtain ⟨expanded, result, hrun⟩ := exists_reapRun img mappings blockSize hroom
      (leU64 reaper 48) (reapInProgress reaper)
    rw [hrun.eq_reapChain hroom, ← hpending] at hrun
    exact ⟨expanded, hrun⟩

/-! An image of a reaper block and two reap lists, with a data block between them. -/

/-- A reaper that is at object 300, of type 2, and whose chain starts at the ephemeral id 16385. -/
private def queuedReaper : Bytes :=
  stamp (List.replicate 40 0 ++ leBytes 8 16385 ++ List.replicate 16 0 ++ leBytes 4 2 ++
    List.replicate 12 0 ++ leBytes 8 300 ++ List.replicate 4000 0)

/-- A slot for an object. -/
private def queuedSlot (o : ReapPending) : Bytes :=
  List.replicate 8 0 ++ leBytes 4 o.objType ++ List.replicate 12 0 ++ leBytes 8 o.oid ++
    List.replicate 8 0

/-- A list of three slots, followed by the list `next`. -/
private def queuedList (next : ℕ) (a b c : ReapPending) : Bytes :=
  stamp (List.replicate 24 0 ++ leBytes 8 next ++ List.replicate 8 0 ++ leBytes 4 3 ++
    List.replicate 12 0 ++ (queuedSlot a ++ (queuedSlot b ++ queuedSlot c)) ++
    List.replicate 3912 0)

/-- The first list, with a slot in the middle that names no object. -/
private def queuedFirst : Bytes :=
  queuedList 16390 ⟨500, 13⟩ ⟨0, 11⟩ ⟨501, 14⟩

/-- The second list, the last of the chain. -/
private def queuedSecond : Bytes :=
  queuedList 0 ⟨502, 13⟩ ⟨500, 3⟩ ⟨0, 0⟩

private def queuedBlocks : List Bytes :=
  [queuedReaper, queuedSecond, List.replicate 4096 1, queuedFirst]

private theorem length_queued : ∀ b ∈ queuedBlocks, b.length = 4096 := by
  simp only [queuedBlocks, queuedReaper, queuedFirst, queuedSecond, queuedList, queuedSlot,
    List.forall_mem_cons, List.length_append, List.length_replicate, length_leBytes, length_stamp,
    List.not_mem_nil, false_imp_iff, implies_true, and_self]

/-- The reaper in block 0 and the lists in blocks 3 and 1. -/
def queuedImage : Image where
  bytes := queuedBlocks.flatten
  length_lt := by
    rw [length_flatten_blocks length_queued, show queuedBlocks.length = 4 from rfl]
    norm_num

/-- The table, in which the first list has an earlier mapping that counts and a later one that does
not. -/
private def queuedMappings : List CheckpointMapping :=
  [⟨16390, 1, 0, 0⟩, ⟨16385, 3, 0, 0⟩, ⟨16385, 2, 0, 0⟩]

private theorem queued_list {oid p : ℕ} {m : CheckpointMapping} {body : Bytes}
    (hmap : (queuedMappings.find? fun m => m.oid == oid) = some m) (hp : m.paddr = p)
    (hblock : queuedBlocks[p]? = some (stamp body)) :
    ReapListAt queuedImage queuedMappings 4096 oid (stamp body) := by
  subst hp
  exact ⟨m, hmap, Image.block_of_flatten rfl length_queued hblock, checksumValid_stamp _⟩

/-- The object in progress comes first, then those of the two lists. -/
theorem queued_object_pending :
    pendingObjects queuedImage 0 queuedMappings 4096 =
      .ok [⟨300, 2⟩, ⟨500, 13⟩, ⟨501, 14⟩, ⟨502, 13⟩, ⟨500, 3⟩] := by
  have hreaper : BlockVerified queuedImage 4096 0 queuedReaper :=
    ⟨Image.block_of_flatten rfl length_queued rfl, checksumValid_stamp _⟩
  have hlinks : leU64 queuedReaper 48 = 16385 ∧ leU64 queuedFirst 32 = 16390 ∧
      leU64 queuedSecond 32 = 0 := by
    decide +kernel
  obtain ⟨hhead, hnext, hend⟩ := hlinks
  have hchain : ReapChain queuedImage queuedMappings 4096 (leU64 queuedReaper 48)
      [(16385, queuedFirst), (16390, queuedSecond)] 0 := by
    rw [hhead]
    refine .cons (by norm_num) (queued_list (p := 3) rfl rfl rfl) ?_
    rw [hnext]
    refine .cons (by norm_num) (queued_list (p := 1) rfl rfl rfl) ?_
    rw [hend]
    exact .nil 0
  have hread := (reap_traversal queuedImage 0 queuedReaper queuedMappings 4096 (by norm_num)
    hreaper).complete _ hchain (by decide) (by decide)
  rw [hread]
  decide +kernel

end ApfsCore
