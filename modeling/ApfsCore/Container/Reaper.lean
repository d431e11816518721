import ApfsCore.Container.Checkpoint

/-!
# Objects pending reaping

`reaper.rs`. The reaper block names the object being reaped and the head of a chain of reap
lists. The lists are ephemeral objects, found through the checkpoint mappings, and the chain
is followed with a visited-set and a cap on its length.
-/

namespace ApfsCore

/-- An object pending reaping. -/
structure ReapPending where
  oid : ℕ
  objType : ℕ
  deriving DecidableEq, Repr

/-- `MAX_REAP_LISTS`. -/
def maxReapLists : ℕ := 4096

/-- The object whose reaping is in progress, if there is one. -/
def reapInProgress (reaper : Bytes) : List ReapPending :=
  if leU64 reaper 88 ≠ 0 then [{ oid := leU64 reaper 88, objType := leU32 reaper 72 }] else []

/-- The objects queued in one reap list. -/
def reapListEntries (list : Bytes) (blockSize : ℕ) : List ReapPending :=
  (List.range (min (leU32 list 48) ((blockSize - 64) / 40))).filterMap fun i =>
    let e := 64 + i * 40
    if leU64 list (e + 24) ≠ 0 then
      some { oid := leU64 list (e + 24), objType := leU32 list (e + 8) }
    else none

/-- The loop of `pending_objects`, from the list `nextOid` on, with the lists `seen` already
followed. The number counts how many more lists the cap allows. -/
def reapChain (img : Image) (mappings : List CheckpointMapping) (blockSize : ℕ) :
    ℕ → List ℕ → ℕ → Result (List ReapPending)
  | 0, _, nextOid => if nextOid = 0 then .ok [] else fail (.cycleGuard maxReapLists)
  | n + 1, seen, nextOid =>
    if nextOid = 0 then .ok []
    else if nextOid ∈ seen then fail (.cycleGuard maxReapLists)
    else
      match mappings.find? fun m => m.oid == nextOid with
      | none => fail (.omapUnresolved nextOid 0)
      | some m => do
        let list ← readObjBlock img m.paddr blockSize
        let rest ← reapChain img mappings blockSize n (nextOid :: seen) (leU64 list 32)
        .ok (reapListEntries list blockSize ++ rest)

/-- `pending_objects`. -/
def pendingObjects (img : Image) (reaperPaddr : ℕ) (mappings : List CheckpointMapping)
    (blockSize : ℕ) : Result (List ReapPending) := do
  let reaper ← readObjBlock img reaperPaddr blockSize
  let queued ← reapChain img mappings blockSize maxReapLists [] (leU64 reaper 48)
  .ok (reapInProgress reaper ++ queued)

theorem named_reapChain (img : Image) (mappings : List CheckpointMapping) (blockSize n : ℕ)
    (seen : List ℕ) (nextOid : ℕ) : Named (reapChain img mappings blockSize n seen nextOid) := by
  induction n generalizing seen nextOid with
  | zero => exact .ite (.ok []) (named_fail _)
  | succ n ih =>
    rw [reapChain]
    refine .ite (.ok []) (.ite (named_fail _) ?_)
    cases mappings.find? fun m => m.oid == nextOid with
    | none => exact named_fail _
    | some m =>
      refine (named_readObjBlock img m.paddr blockSize).bind fun list _ => ?_
      exact (ih _ _).bind fun rest _ => .ok _

theorem named_pendingObjects (img : Image) (reaperPaddr : ℕ) (mappings : List CheckpointMapping)
    (blockSize : ℕ) : Named (pendingObjects img reaperPaddr mappings blockSize) :=
  (named_readObjBlock img reaperPaddr blockSize).bind fun _ _ =>
    (named_reapChain img mappings blockSize _ _ _).bind fun _ _ => .ok _

end ApfsCore
