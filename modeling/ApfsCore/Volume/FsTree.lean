import ApfsCore.Tree.OmapResolve
import ApfsCore.Volume.FsRecord
import ApfsCore.Volume.Superblock

/-!
# The file-system tree walk

The walk of `dir.rs`. The file-system tree is virtual: every node id is resolved through the
volume's object map at the volume's transaction, and the block it resolves to is verified
before it is decoded. A keyed walk, for one object id, skips the children whose key range
cannot cover it.
-/

namespace ApfsCore

/-- `MAX_FSTREE_DEPTH`. -/
def maxFstreeDepth : ℕ := 64

/-- The error of both walk guards. -/
def fstreeCycle : Fault := .apfs (.cycleGuard maxFstreeDepth)

/-- Read the block at a physical address and verify its checksum, as the virtual walks do. -/
def readVerifiedBlock (img : Image) (paddr blockSize : ℕ) : Result Bytes := do
  let buf ← img.readExact (saturatingMul paddr blockSize) blockSize
  verified paddr buf

/-- What is read is a verified block. -/
theorem readVerifiedBlock_eq_ok_iff {img : Image} {paddr blockSize : ℕ} {buf : Bytes}
    (hbs : blockSize ≠ 0) :
    readVerifiedBlock img paddr blockSize = .ok buf ↔ BlockVerified img blockSize paddr buf := by
  rw [readVerifiedBlock, Image.readExact_saturatingMul img hbs, BlockVerified]
  cases img.block blockSize paddr with
  | none => exact iff_of_false (fail_ne_ok _ _) fun h => by cases h.1
  | some read =>
    rw [ok_bind, verified, Option.some.injEq]
    split_ifs with hsum
    · rw [Except.ok.injEq]
      exact ⟨fun h => ⟨h, h ▸ hsum⟩, And.left⟩
    · refine iff_of_false (fail_ne_ok _ _) ?_
      rintro ⟨rfl, h⟩
      exact hsum h

/-- The node a virtual id names at a transaction. -/
def fetchVirtual (img : Image) (omap : ObjectMap) (xid blockSize oid : ℕ) :
    Result (Node Entry) := do
  let entry ← omap.resolve img oid xid blockSize
  let buf ← readVerifiedBlock img entry.paddr blockSize
  .ok (nodeOf buf .fsTree)

/-- `child_may_contain_oid`. -/
def childMayContainOid (sepOid : ℕ) (nextSepOid : Option ℕ) (target : ℕ) : Bool :=
  decide (sepOid ≤ target) && nextSepOid.all fun next => decide (target ≤ next)

/-- The children of an index node that a walk descends into: all of them, or those that may
contain the target. -/
def keptChildren (target : Option ℕ) : List Entry → List ℕ
  | [] => []
  | e :: es =>
    if target.all fun t => childMayContainOid e.oid (es.head?.map Entry.oid) t then
      e.child :: keptChildren target es
    else keptChildren target es

/-- `descend_virtual`, at the given depth and with the given ids visited: the ids visited when
it returns, and the entries `visit` was called on. -/
def descendVirtual (img : Image) (omap : ObjectMap) (nodeOid xid blockSize depth : ℕ)
    (target : Option ℕ) (visited : List ℕ) : Result (List ℕ × List Entry) :=
  walk (fetchVirtual img omap xid blockSize) (keptChildren target) id fstreeCycle
    (maxFstreeDepth - depth) visited nodeOid

/-- `walk_fs_tree`: the entries `visit` is called on, in order. -/
def walkFsTree (img : Image) (v : ApfsVolume) (blockSize : ℕ) (target : Option ℕ) :
    Result (List Entry) := do
  let omap ← readObjectMap img v.omapOid blockSize
  Prod.snd <$> descendVirtual img omap v.rootTreeOid v.xid blockSize 0 target []

/-- `for_each_fs_record_for_oid`. -/
def forEachFsRecordForOid (img : Image) (v : ApfsVolume) (blockSize targetOid : ℕ) :
    Result (List Entry) :=
  walkFsTree img v blockSize (some targetOid)

/-- The recursion of `descend_virtual`, as the source writes it. -/
theorem descendVirtual_eq (img : Image) (omap : ObjectMap) (nodeOid xid blockSize depth : ℕ)
    (target : Option ℕ) (visited : List ℕ) :
    descendVirtual img omap nodeOid xid blockSize depth target visited =
      if depth ≥ maxFstreeDepth then fail (.cycleGuard maxFstreeDepth)
      else if nodeOid ∈ visited then fail (.cycleGuard maxFstreeDepth)
      else fetchVirtual img omap xid blockSize nodeOid >>= fun node =>
        match node with
        | .leaf es => .ok (nodeOid :: visited, es)
        | .index es =>
          walkList (fun visited child =>
              descendVirtual img omap child xid blockSize (depth + 1) target visited)
            (nodeOid :: visited) (keptChildren target es) := by
  rw [descendVirtual, walk_at_depth]
  refine if_congr Iff.rfl rfl (if_congr Iff.rfl rfl ?_)
  congr 1
  funext node
  cases node <;> rfl

theorem named_fetchVirtual (img : Image) (omap : ObjectMap) (xid blockSize oid : ℕ) :
    Named (fetchVirtual img omap xid blockSize oid) := by
  refine (omap.named_resolve img oid xid blockSize).bind fun entry _ => ?_
  refine ErrorsIn.bind ?_ fun buf _ => .ok _
  exact (img.named_readExact _ _).bind fun buf _ => named_verified _ buf

theorem named_walkFsTree (img : Image) (v : ApfsVolume) (blockSize : ℕ) (target : Option ℕ) :
    Named (walkFsTree img v blockSize target) := by
  refine (named_readObjectMap img v.omapOid blockSize).bind fun omap _ => ?_
  exact (walk_errorsIn ⟨_, rfl⟩ (named_fetchVirtual img omap v.xid blockSize) _ _ _).map _

/-- What a walk of the file-system tree delivers is what the tree unfolds to, provided no node
is met twice. -/
theorem walkFsTree_eq_ok_iff {img : Image} {v : ApfsVolume} {blockSize : ℕ} {target : Option ℕ}
    {rs : List Entry} :
    walkFsTree img v blockSize target = .ok rs ↔
      ∃ omap as, readObjectMap img v.omapOid blockSize = .ok omap ∧
        explore (fetchVirtual img omap v.xid blockSize) (keptChildren target) fstreeCycle
          maxFstreeDepth v.rootTreeOid = .ok (as, rs) ∧ as.Nodup := by
  unfold walkFsTree descendVirtual
  simp only [bind_eq_ok, walk_snd_eq_ok_iff, List.map_id]
  constructor
  · rintro ⟨omap, homap, as, hex, hnodup⟩
    exact ⟨omap, as, homap, hex, hnodup⟩
  · rintro ⟨omap, as, homap, hex, hnodup⟩
    exact ⟨omap, homap, as, hex, hnodup⟩

end ApfsCore
