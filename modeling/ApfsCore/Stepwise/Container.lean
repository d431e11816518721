import ApfsCore.Container.Reaper
import ApfsCore.Container.Spaceman
import ApfsCore.Stepwise.Format
import ApfsCore.Volume.Keybag

/-!
# Allocation, reaping and keybags, operation by operation

`is_block_free`, `pending_objects` and `read_keybag` with each operation that could panic
explicit. The divisors of the space manager are checked first; the positions computed from its
32-bit fields stay far below the range of `usize`. The slots of a reap list are counted by a
32-bit field, and the entries of a keybag start at most one entry past the end of the blob.
-/

namespace ApfsCore

namespace Stepwise

/-! ### The space manager -/

/-- The fields as they stand in a block. -/
def spacemanOf (sm : Bytes) : Run Spaceman := do
  let blocksPerChunk ← leU32 sm 36
  let chunksPerCib ← leU32 sm 40
  let blockCount ← leU64 sm 48
  let chunkCount ← leU64 sm 56
  let cibCount ← leU32 sm 64
  let cabCount ← leU32 sm 68
  let addrOffset ← leU32 sm 80
  .ok { blocksPerChunk, chunksPerCib, blockCount, chunkCount, cibCount, cabCount, addrOffset }

/-- The checks of `is_block_free` on the space manager, and the CIB and the slot in it that they
lead to. -/
def position (s : Spaceman) (block : ℕ) : Run (ℕ × ℕ) :=
  if s.blocksPerChunk = 0 ∨ s.chunksPerCib = 0 then
    asRun (fail (spacemanRange "sm_blocks_per_chunk/sm_chunks_per_cib" 0 1))
  else if block ≥ s.blockCount then asRun (fail (spacemanRange "block" block s.blockCount))
  else if s.cabCount ≠ 0 then asRun (fail (.unsupportedSpacemanCab s.cabCount))
  else do
    let chunkIndex ← udiv block s.blocksPerChunk
    if chunkIndex ≥ s.chunkCount then
      asRun (fail (spacemanRange "chunk_index" chunkIndex s.chunkCount))
    else do
      let cibIndex ← udiv chunkIndex s.chunksPerCib
      let withinCib ← urem chunkIndex s.chunksPerCib
      if cibIndex ≥ s.cibCount then
        asRun (fail (spacemanRange "cib_index" cibIndex s.cibCount))
      else .ok (cibIndex, withinCib)

/-- The allocation bit. -/
def allocated (bitmap : Bytes) (bit : ℕ) : Run Bool :=
  match bitmap[bit / 8]? with
  | none => .ok false
  | some byte => do
    let mask ← ushl 8 1 (bit % 8)
    .ok (byte.toNat &&& mask != 0)

/-- `is_block_free`. -/
def isBlockFree (img : Image) (spacemanPaddr block blockSize : ℕ) : Run Bool := do
  let sm ← readObjBlock img spacemanPaddr blockSize
  let s ← spacemanOf sm
  let (cibIndex, withinCib) ← position s block
  let skipped ← umul 64 cibIndex 8
  let slot ← uadd 64 s.addrOffset skipped
  let cibPaddr ← leU64 sm slot
  let cib ← readObjBlock img cibPaddr blockSize
  let ciCount ← leU32 cib 36
  if withinCib ≥ ciCount then
    asRun (fail (spacemanRange "chunk_info_index" withinCib ciCount))
  else do
    let skipped ← umul 64 withinCib 32
    let ciOff ← uadd 64 40 skipped
    let o ← uadd 64 ciOff 24
    let bitmapAddr ← leU64 cib o
    if bitmapAddr = 0 then .ok true
    else do
      let bitmap ← asRun (img.readExact (saturatingMul bitmapAddr blockSize) blockSize)
      let bit ← urem block s.blocksPerChunk
      let set ← allocated bitmap bit
      .ok (!set)

private theorem spacemanOf_eq (sm : Bytes) : spacemanOf sm = .ok (Spaceman.ofBlock sm) := by
  rw [spacemanOf]
  simp (disch := omega) only [leU32_eq, leU64_eq, ok_bind]
  rfl

/-- The checks pass on the position of the block, without dividing by zero. -/
private theorem position_eq (s : Spaceman) (block : ℕ) :
    position s block =
      asRun (s.check block >>= fun _ => .ok (s.cibIndex block, s.withinCib block)) := by
  rw [position, Spaceman.check]
  by_cases hzero : s.blocksPerChunk = 0 ∨ s.chunksPerCib = 0
  · rw [if_pos hzero, if_pos hzero]
    rfl
  · rw [if_neg hzero, if_neg hzero]
    rw [not_or] at hzero
    rw [udiv_eq hzero.1, ok_bind, udiv_eq hzero.2, ok_bind, urem_eq hzero.2, ok_bind]
    rw [← Spaceman.chunkIndex, ← Spaceman.cibIndex, ← Spaceman.withinCib]
    split_ifs <;> rfl

private theorem allocated_eq (bitmap : Bytes) (bit : ℕ) :
    allocated bitmap bit = .ok (ApfsCore.allocated bitmap bit) := by
  rw [allocated, ApfsCore.allocated]
  cases bitmap[bit / 8]? with
  | none => rfl
  | some byte =>
    have hbit : bit % 8 < 8 := Nat.mod_lt _ (by norm_num)
    have hmask : 1 <<< (bit % 8) < 2 ^ 8 := by
      rw [Nat.one_shiftLeft]
      exact Nat.pow_lt_pow_right (by norm_num) hbit
    dsimp only
    rw [ushl_eq hbit hmask, ok_bind]

/-- **The allocation lookup** stays in range. -/
theorem isBlockFree_eq (img : Image) (spacemanPaddr block blockSize : ℕ) :
    isBlockFree img spacemanPaddr block blockSize =
      asRun (ApfsCore.isBlockFree img spacemanPaddr block blockSize) := by
  refine bind_eq_asRun (readObjBlock_eq img spacemanPaddr blockSize) fun sm _ => ?_
  rw [spacemanOf_eq, ok_bind, position_eq]
  dsimp only
  cases hcheck : (Spaceman.ofBlock sm).check block with
  | error f => rfl
  | ok u =>
    have hadmits := Spaceman.check_eq_ok_iff.mp hcheck
    have hcib : (Spaceman.ofBlock sm).cibIndex block < 2 ^ 32 :=
      hadmits.cibIndex_lt.trans (leU32_lt sm _)
    have haddr : (Spaceman.ofBlock sm).addrOffset < 2 ^ 32 := leU32_lt sm _
    rw [ok_bind, asRun_ok, ok_bind]
    dsimp only
    rw [ok_bind, umul_eq (by omega), ok_bind, uadd_eq (by omega), ok_bind,
      leU64_eq (by omega), ok_bind]
    refine bind_eq_asRun (readObjBlock_eq img _ blockSize) fun cib _ => ?_
    have hcount := leU32_lt cib 36
    rw [leU32_eq (by norm_num), ok_bind]
    refine ite_eq_asRun (fun _ => rfl) fun hwithin => ?_
    rw [umul_eq (by omega), ok_bind, uadd_eq (by omega), ok_bind, uadd_eq (by omega), ok_bind,
      leU64_eq (by omega), ok_bind]
    refine ite_eq_asRun (fun _ => rfl) fun _ => ?_
    refine bind_eq_asRun rfl fun bitmap _ => ?_
    rw [urem_eq hadmits.blocksPerChunk_pos.ne', ok_bind, allocated_eq, ok_bind]
    rfl

/-! ### Reaping -/

/-- The object whose reaping is in progress, if there is one. -/
def reapInProgress (reaper : Bytes) : Run (List ReapPending) := do
  let oid ← leU64 reaper 88
  if oid ≠ 0 then do
    let objType ← leU32 reaper 72
    .ok [{ oid := oid, objType := objType }]
  else .ok []

/-- Slot `i` of a reap list. -/
def reapSlot (list : Bytes) (out : List ReapPending) (i : ℕ) : Run (List ReapPending) := do
  let skipped ← umul 64 i 40
  let e ← uadd 64 64 skipped
  let o ← uadd 64 e 24
  let oid ← leU64 list o
  if oid ≠ 0 then do
    let o ← uadd 64 e 8
    let objType ← leU32 list o
    .ok (out ++ [{ oid := oid, objType := objType }])
  else .ok out

/-- The objects queued in one reap list. -/
def reapListEntries (list : Bytes) (blockSize : ℕ) : Run (List ReapPending) := do
  let count ← leU32 list 48
  (List.range (min count ((blockSize - 64) / 40))).foldlM (reapSlot list) []

/-- The loop of `pending_objects`. -/
def reapChain (img : Image) (mappings : List CheckpointMapping) (blockSize : ℕ) :
    ℕ → List ℕ → ℕ → Run (List ReapPending)
  | 0, _, nextOid => if nextOid = 0 then .ok [] else asRun (fail (.cycleGuard maxReapLists))
  | n + 1, seen, nextOid =>
    if nextOid = 0 then .ok []
    else if nextOid ∈ seen then asRun (fail (.cycleGuard maxReapLists))
    else
      match mappings.find? fun m => m.oid == nextOid with
      | none => asRun (fail (.omapUnresolved nextOid 0))
      | some m => do
        let list ← readObjBlock img m.paddr blockSize
        let queued ← reapListEntries list blockSize
        let next ← leU64 list 32
        let rest ← reapChain img mappings blockSize n (nextOid :: seen) next
        .ok (queued ++ rest)

/-- `pending_objects`. -/
def pendingObjects (img : Image) (reaperPaddr : ℕ) (mappings : List CheckpointMapping)
    (blockSize : ℕ) : Run (List ReapPending) := do
  let reaper ← readObjBlock img reaperPaddr blockSize
  let inProgress ← reapInProgress reaper
  let head ← leU64 reaper 48
  let queued ← reapChain img mappings blockSize maxReapLists [] head
  .ok (inProgress ++ queued)

private theorem reapInProgress_eq (reaper : Bytes) :
    reapInProgress reaper = .ok (ApfsCore.reapInProgress reaper) := by
  rw [reapInProgress, leU64_eq (by norm_num), ok_bind, leU32_eq (by norm_num), ok_bind]
  exact ite_eq_ok (fun _ => rfl) fun _ => rfl

private theorem reapListEntries_eq (list : Bytes) (blockSize : ℕ) :
    reapListEntries list blockSize = .ok (ApfsCore.reapListEntries list blockSize) := by
  have hcount := leU32_lt list 48
  rw [reapListEntries, leU32_eq (by norm_num), ok_bind, ApfsCore.reapListEntries]
  rw [← List.nil_append (List.filterMap _ _), ← foldl_append_toList]
  refine foldlM_eq_ok_foldl (fun out i hi => ?_) []
  rw [List.mem_range] at hi
  rw [reapSlot, umul_eq (by omega), ok_bind, uadd_eq (by omega), ok_bind, uadd_eq (by omega),
    ok_bind, leU64_eq (by omega), ok_bind, uadd_eq (by omega), ok_bind, leU32_eq (by omega),
    ok_bind]
  dsimp only
  split_ifs
  · rfl
  · rw [Option.toList_none, List.append_nil]

private theorem reapChain_eq (img : Image) (mappings : List CheckpointMapping) (blockSize n : ℕ)
    (seen : List ℕ) (nextOid : ℕ) :
    reapChain img mappings blockSize n seen nextOid =
      asRun (ApfsCore.reapChain img mappings blockSize n seen nextOid) := by
  induction n generalizing seen nextOid with
  | zero => exact ite_eq_asRun (fun _ => rfl) fun _ => rfl
  | succ n ih =>
    refine ite_eq_asRun (fun _ => rfl) fun _ => ?_
    refine ite_eq_asRun (fun _ => rfl) fun _ => ?_
    cases mappings.find? fun m => m.oid == nextOid with
    | none => rfl
    | some m =>
      refine bind_eq_asRun (readObjBlock_eq img m.paddr blockSize) fun list _ => ?_
      rw [reapListEntries_eq, ok_bind, leU64_eq (by norm_num), ok_bind]
      exact bind_eq_asRun (ih _ _) fun rest _ => rfl

/-- **The reaper's queue** is read in range. -/
theorem pendingObjects_eq (img : Image) (reaperPaddr : ℕ) (mappings : List CheckpointMapping)
    (blockSize : ℕ) :
    pendingObjects img reaperPaddr mappings blockSize =
      asRun (ApfsCore.pendingObjects img reaperPaddr mappings blockSize) := by
  refine bind_eq_asRun (readObjBlock_eq img reaperPaddr blockSize) fun reaper _ => ?_
  rw [reapInProgress_eq, ok_bind, leU64_eq (by norm_num), ok_bind]
  exact bind_eq_asRun (reapChain_eq img mappings blockSize _ _ _) fun queued _ => rfl

/-! ### Keybags -/

/-- The loop of `read_keybag`. -/
def keybagEntries (data : Bytes) : ℕ → ℕ → Run (List (ℕ × ℕ))
  | 0, _ => .ok []
  | n + 1, off => do
    let stop ← uadd 64 off 24
    if stop > data.length then .ok []
    else do
      let o ← uadd 64 off 16
      let rawTag ← leU16 data o
      let o ← uadd 64 off 18
      let keylen ← leU16 data o
      let len ← uadd 64 24 keylen
      let padded ← uadd 64 len 15
      let next ← uadd 64 off (max (padded / 16 * 16) 16)
      let rest ← keybagEntries data n next
      .ok ((rawTag, off) :: rest)

/-- `read_keybag`. -/
def readKeybag (data : Bytes) : Run EncryptionState := do
  let nkeys ← leU16 data 2
  let entries ← keybagEntries data (min nkeys maxKeybagEntries) 16
  .ok (.ofEntries entries)

/-- An entry starts inside the blob or, at the end of the walk, less than one entry past it. -/
private theorem keybagEntries_eq {data : Bytes} (hdata : data.length < 2 ^ 63) {n off : ℕ}
    (hoff : off ≤ data.length + 2 ^ 17) :
    keybagEntries data n off = .ok (ApfsCore.keybagEntries data n off) := by
  induction n generalizing off with
  | zero => rfl
  | succ n ih =>
    have hkeylen := leU16_lt data (off + 18)
    rw [keybagEntries, uadd_eq (by omega), ok_bind, ApfsCore.keybagEntries]
    refine ite_eq_ok (fun _ => rfl) fun hstop => ?_
    rw [uadd_eq (by omega), ok_bind, leU16_eq (by omega), ok_bind, uadd_eq (by omega), ok_bind,
      leU16_eq (by omega), ok_bind, uadd_eq (by omega), ok_bind, uadd_eq (by omega), ok_bind,
      uadd_eq (by omega), ok_bind, ih (by omega), ok_bind]

/-- **Keybags** are read in range. -/
theorem readKeybag_eq {data : Bytes} (hdata : data.length < 2 ^ 63) :
    readKeybag data = asRun (ApfsCore.readKeybag data) := by
  rw [readKeybag, leU16_eq (by norm_num), ok_bind, keybagEntries_eq hdata (by omega), ok_bind]
  rfl

end Stepwise

end ApfsCore
