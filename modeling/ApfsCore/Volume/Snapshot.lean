import ApfsCore.Tree.Written
import ApfsCore.Volume.FsTree
import Mathlib.Data.List.Sort

/-!
# Snapshots

`snapshot.rs`. The snapshot-metadata tree is walked like the file-system tree, except for its
root: the root is named by a physical block number, every other node by a virtual id. The
walk keeps one visited-set for both, keyed by the bare number.

On a well-formed tree (`SnapTree`) the enumeration is therefore complete exactly when the
root's block number is not also the virtual id of a node below it; when it is, the two namings
collide in the visited-set and the walk stops with an error.
-/

namespace ApfsCore

/-! ### Records -/

/-- `MAX_SNAP_NAME_LEN`. -/
def maxSnapNameLen : ℕ := 4096

/-- A parsed snapshot. -/
structure Snapshot where
  xid : ℕ
  name : Str
  createTime : ℕ
  changeTime : ℕ
  sblockOid : ℕ
  extentrefTreeOid : ℕ
  inum : ℕ
  flags : ℕ
  deriving DecidableEq

/-- `parse_snap_metadata`. -/
def parseSnapMetadata (xid : ℕ) (value : Bytes) : Snapshot where
  xid := xid
  name :=
    match slice value 50 (50 + min (leU16 value 48) maxSnapNameLen) with
    | none => []
    | some name => decodeCstr name
  createTime := leU64 value 16
  changeTime := leU64 value 24
  sblockOid := leU64 value 8
  extentrefTreeOid := leU64 value 0
  inum := leU64 value 32
  flags := leU32 value 44

/-- `decode_snap_name_key`. -/
def decodeSnapNameKey (key : Bytes) : Option Str :=
  let nameLen := min (leU16 key 8) maxSnapNameLen
  if nameLen = 0 then none else (slice key 10 (10 + nameLen)).map decodeCstr

/-- The snapshot of a record, if it is a metadata record. -/
def snapshotOf (e : Entry) : Option Snapshot :=
  if e.recordType = some .snapMetadata then some (parseSnapMetadata e.oid e.value) else none

/-- The transaction id of a record, if it is a name record of that name. -/
def snapXidOf (name : Str) (e : Entry) : Option ℕ :=
  if e.recordType ≠ some .snapName then none
  else if decodeSnapNameKey e.key = some name then some (leU64 e.value 0)
  else none

/-! ### The walk -/

/-- `MAX_SNAP_TREE_DEPTH`. -/
def maxSnapTreeDepth : ℕ := 64

/-- The error of both walk guards. -/
def snapCycle : Fault := .apfs (.cycleGuard maxSnapTreeDepth)

/-- A node of the snapshot-metadata tree is named by a number, and by whether it is the root. -/
structure SnapNode where
  isRoot : Bool
  nodeOid : ℕ
  deriving DecidableEq

/-- The block a name stands for: the root's number is the block, any other a virtual id. -/
def snapPaddr (img : Image) (omap : ObjectMap) (xid blockSize : ℕ) (a : SnapNode) : Result ℕ :=
  if a.isRoot then .ok a.nodeOid
  else OmapEntry.paddr <$> omap.resolve img a.nodeOid xid blockSize

/-- The node a name stands for. -/
def fetchSnap (img : Image) (omap : ObjectMap) (xid blockSize : ℕ) (a : SnapNode) :
    Result (Node Entry) := do
  let paddr ← snapPaddr img omap xid blockSize a
  let buf ← readVerifiedBlock img paddr blockSize
  .ok (nodeOf buf .fsTree)

/-- The children of an index node. -/
def snapChildren (es : List Entry) : List SnapNode :=
  es.map fun e => ⟨false, e.child⟩

/-- `descend_snap`, at the given depth and with the given numbers visited. -/
def descendSnap (img : Image) (omap : ObjectMap) (a : SnapNode) (xid blockSize depth : ℕ)
    (visited : List ℕ) : Result (List ℕ × List Entry) :=
  walk (fetchSnap img omap xid blockSize) snapChildren SnapNode.nodeOid snapCycle
    (maxSnapTreeDepth - depth) visited a

/-- `for_each_snap_record`: the entries `visit` is called on, in order. -/
def forEachSnapRecord (img : Image) (v : ApfsVolume) (blockSize : ℕ) : Result (List Entry) := do
  let omap ← readObjectMap img v.omapOid blockSize
  Prod.snd <$> descendSnap img omap ⟨true, v.snapMetaTreeOid⟩ v.xid blockSize 0 []

/-- The stable `sort_by_key` of a list of snapshots. -/
def sortSnapshots (snaps : List Snapshot) : List Snapshot :=
  snaps.insertionSort fun a b => a.xid ≤ b.xid

/-- `list_snapshots`. -/
def listSnapshots (img : Image) (v : ApfsVolume) (blockSize : ℕ) : Result (List Snapshot) := do
  let rs ← forEachSnapRecord img v blockSize
  .ok (sortSnapshots (rs.filterMap snapshotOf))

/-- `resolve_snapshot_xid`. -/
def resolveSnapshotXid (img : Image) (v : ApfsVolume) (name : Str) (blockSize : ℕ) :
    Result (Option ℕ) := do
  let rs ← forEachSnapRecord img v blockSize
  .ok (rs.findSome? (snapXidOf name))

/-- `mount_snapshot`. -/
def mountSnapshot (img : Image) (liveVolume : ApfsVolume) (snapshot : Snapshot) (blockSize : ℕ) :
    Result ApfsVolume := do
  let buf ← img.readExact (saturatingMul snapshot.sblockOid blockSize) blockSize
  let v ← ApfsVolume.parse buf
  .ok (v.withOmapOid liveVolume.omapOid)

/-- The recursion of `descend_snap`, as the source writes it. -/
theorem descendSnap_eq (img : Image) (omap : ObjectMap) (a : SnapNode)
    (xid blockSize depth : ℕ) (visited : List ℕ) :
    descendSnap img omap a xid blockSize depth visited =
      if depth ≥ maxSnapTreeDepth then fail (.cycleGuard maxSnapTreeDepth)
      else if a.nodeOid ∈ visited then fail (.cycleGuard maxSnapTreeDepth)
      else fetchSnap img omap xid blockSize a >>= fun node =>
        match node with
        | .leaf es => .ok (a.nodeOid :: visited, es)
        | .index es =>
          walkList (fun visited child =>
              descendSnap img omap child xid blockSize (depth + 1) visited)
            (a.nodeOid :: visited) (snapChildren es) := by
  rw [descendSnap, walk_at_depth]
  refine if_congr Iff.rfl rfl (if_congr Iff.rfl rfl ?_)
  congr 1
  funext node
  cases node <;> rfl

/-- A node is fetched from the block that its name stands for. -/
theorem fetchSnap_of_nodeOn {img : Image} {omap : ObjectMap} {xid blockSize paddr : ℕ}
    {a : SnapNode} {node : Node Entry} (hbs : blockSize ≠ 0)
    (hpaddr : snapPaddr img omap xid blockSize a = .ok paddr)
    (hnode : NodeOn img blockSize .fsTree paddr node) :
    fetchSnap img omap xid blockSize a = .ok node := by
  obtain ⟨buf, hbuf, hdecode⟩ := hnode.exists_block
  rw [fetchSnap, hpaddr, ok_bind, (readVerifiedBlock_eq_ok_iff hbs).mpr hbuf, ok_bind, hdecode]

/-! ### Completeness -/

/-- A well-formed snapshot-metadata tree: the volume's object map is well formed, and the tree
unfolds from its root within the depth cap, with every node resolved, in the image and
verified. `oids` are the virtual ids of the nodes below the root, pairwise distinct, and
`records` the leaf records in tree order. -/
structure SnapTree (img : Image) (v : ApfsVolume) (blockSize : ℕ) (oids : List ℕ)
    (records : List Entry) : Prop where
  unfolds : ∃ om blocks entries, readObjectMap img v.omapOid blockSize = .ok om ∧
    OmapTree img blockSize om.treeOid blocks entries ∧
    explore (fetchSnap img om v.xid blockSize) snapChildren snapCycle maxSnapTreeDepth
      ⟨true, v.snapMetaTreeOid⟩ =
      .ok (⟨true, v.snapMetaTreeOid⟩ :: oids.map (SnapNode.mk false), records)
  distinct : oids.Nodup

/-- The snapshots are enumerated completely: one for each metadata record, sorted by
transaction id, and each name resolves to the value of its first name record. -/
def SnapshotsComplete (img : Image) (v : ApfsVolume) (blockSize : ℕ) (records : List Entry) :
    Prop :=
  (∃ snaps, listSnapshots img v blockSize = .ok snaps ∧
    snaps.Perm (records.filterMap snapshotOf) ∧ snaps.Pairwise fun a b => a.xid ≤ b.xid) ∧
  ∀ name, resolveSnapshotXid img v name blockSize = .ok (records.findSome? (snapXidOf name))

section Complete

variable {img : Image} {v : ApfsVolume} {blockSize : ℕ} {oids : List ℕ} {records : List Entry}

/-- The walk of a well-formed tree succeeds exactly when the root's block number is not one of
the virtual ids, and then delivers the tree's records. -/
theorem SnapTree.forEachSnapRecord_eq_ok_iff (h : SnapTree img v blockSize oids records)
    {rs : List Entry} :
    forEachSnapRecord img v blockSize = .ok rs ↔ rs = records ∧ v.snapMetaTreeOid ∉ oids := by
  obtain ⟨om, blocks, entries, hom, -, hex⟩ := h.unfolds
  -- the visited-set forgets which number is a block and which a virtual id
  have hkeys : (((⟨true, v.snapMetaTreeOid⟩ : SnapNode) ::
      oids.map (SnapNode.mk false)).map SnapNode.nodeOid) = v.snapMetaTreeOid :: oids := by
    rw [List.map_cons, List.map_map]
    congr 1
    exact List.map_id _
  rw [forEachSnapRecord, hom, ok_bind, descendSnap, walk_snd_eq_ok_iff]
  constructor
  · rintro ⟨as, hex', hnodup⟩
    rw [show maxSnapTreeDepth - 0 = maxSnapTreeDepth from rfl, hex, Except.ok.injEq,
      Prod.mk.injEq] at hex'
    obtain ⟨rfl, rfl⟩ := hex'
    rw [hkeys, List.nodup_cons] at hnodup
    exact ⟨rfl, hnodup.1⟩
  · rintro ⟨rfl, hroot⟩
    refine ⟨_, hex, ?_⟩
    rw [hkeys, List.nodup_cons]
    exact ⟨hroot, h.distinct⟩

/-- **Snapshot enumeration is complete exactly when the root's block number is not the virtual
id of a node below it.** -/
theorem snapshots_complete_iff (h : SnapTree img v blockSize oids records) :
    SnapshotsComplete img v blockSize records ↔ v.snapMetaTreeOid ∉ oids := by
  constructor
  · rintro ⟨⟨snaps, hsnaps, -, -⟩, -⟩
    obtain ⟨rs, hrs, -⟩ := bind_eq_ok.mp hsnaps
    exact (h.forEachSnapRecord_eq_ok_iff.mp hrs).2
  · intro hroot
    have hwalk := h.forEachSnapRecord_eq_ok_iff.mpr ⟨rfl, hroot⟩
    refine ⟨⟨sortSnapshots (records.filterMap snapshotOf), ?_, ?_, ?_⟩, fun name => ?_⟩
    · rw [listSnapshots, hwalk, ok_bind]
    · exact List.perm_insertionSort _ _
    · exact List.pairwise_insertionSort _ _
    · rw [resolveSnapshotXid, hwalk, ok_bind]

end Complete

/-! A tree with two leaves below its root, which is at block 2. -/

/-- The records of the snapshots of transactions 1 and 2: the metadata in a leaf each, and the names
behind them. -/
private def snapEarly : List Entry :=
  [⟨encodeJkey 1 1, List.replicate 48 0 ++ leBytes 2 2 ++ [115, 0]⟩]

private def snapLate : List Entry :=
  [⟨encodeJkey 1 2, List.replicate 48 0 ++ leBytes 2 2 ++ [116, 0]⟩,
    ⟨encodeJkey 11 9 ++ leBytes 2 2 ++ [115, 0], leBytes 8 1⟩,
    ⟨encodeJkey 11 9 ++ leBytes 2 2 ++ [116, 0], leBytes 8 2⟩]

/-- The first leaf has the given virtual id, the second one has 30. -/
private def snapMapped (oid : ℕ) : List Entry :=
  [encodeOmapEntry oid 1 3, encodeOmapEntry 30 1 4]

private def snapSeparators (oid : ℕ) : List Entry :=
  [⟨encodeJkey 1 1, leBytes 8 oid⟩, ⟨encodeJkey 1 2, leBytes 8 30⟩]

private def snapShape (oid : ℕ) : Shape SnapNode Entry :=
  .index ⟨true, 2⟩ (snapSeparators oid) [.leaf ⟨false, oid⟩ snapEarly, .leaf ⟨false, 30⟩ snapLate]

private def snapBlocks (oid : ℕ) : List Bytes :=
  [encodeObjectMap 1 4096, encodeNode 7 0 (snapMapped oid) 4096,
    encodeNode 1 1 (snapSeparators oid) 4096, encodeNode 2 0 snapEarly 4096,
    encodeNode 2 0 snapLate 4096]

private theorem snap_packable : ∀ oid ∈ [2, 20],
    Packable .omap 7 0 (snapMapped oid) 4096 ∧ Packable .fsTree 1 1 (snapSeparators oid) 4096 ∧
      Packable .fsTree 2 0 snapEarly 4096 ∧ Packable .fsTree 2 0 snapLate 4096 := by
  decide

private theorem length_snapBlocks {oid : ℕ} (hoid : oid ∈ [2, 20]) :
    ∀ b ∈ snapBlocks oid, b.length = 4096 := by
  obtain ⟨hmap, hroot, hearly, hlate⟩ := snap_packable oid hoid
  simp only [snapBlocks, List.forall_mem_cons]
  exact ⟨length_encodeObjectMap (by decide), length_encodeNode_of_packed _ hmap.fits,
    length_encodeNode_of_packed _ hroot.fits, length_encodeNode_of_packed _ hearly.fits,
    length_encodeNode_of_packed _ hlate.fits, fun b hb => absurd hb List.not_mem_nil⟩

private theorem length_flatten_snapBlocks {oid : ℕ} (hoid : oid ∈ [2, 20]) :
    (snapBlocks oid).flatten.length < 2 ^ 64 := by
  rw [length_flatten_blocks (length_snapBlocks hoid), show (snapBlocks oid).length = 5 from rfl]
  norm_num

/-- The first leaf has id 20, which is no block number of the tree. -/
def snapImage : Image :=
  ⟨(snapBlocks 20).flatten, length_flatten_snapBlocks (by decide)⟩

/-- The first leaf has id 2, the block number of the root. -/
def clashImage : Image :=
  ⟨(snapBlocks 2).flatten, length_flatten_snapBlocks (by decide)⟩

/-- The volume over both images, at transaction 1. -/
def snapVolume : ApfsVolume :=
  ⟨0, 1, 0, 0, 0, 0, 0, 0, 0, 0, 2, [], 0, []⟩

/-- Both images hold a well-formed tree. -/
private theorem snapTree_of_blocks {img : Image} {oid : ℕ} (hoid : oid ∈ [2, 20])
    (hbytes : img.bytes = (snapBlocks oid).flatten) :
    SnapTree img snapVolume 4096 [oid, 30] (snapEarly ++ snapLate) := by
  have hbs : 4096 ≠ 0 := by decide
  obtain ⟨hmap, hroot, hearly, hlate⟩ := snap_packable oid hoid
  have hblock : ∀ {p : ℕ} {b : Bytes}, (snapBlocks oid)[p]? = some b →
      img.block 4096 p = some b :=
    fun hp => Image.block_of_flatten hbytes (length_snapBlocks hoid) hp
  have hfacts : ∀ oid ∈ [2, 20],
      ((snapMapped oid).Pairwise fun e e' => omapKey e < omapKey e') ∧
      IsNewest oid 1 ((snapMapped oid).map OmapEntry.ofEntry) ⟨oid, 1, 3, 0, 0⟩ ∧
      IsNewest 30 1 ((snapMapped oid).map OmapEntry.ofEntry) ⟨30, 1, 4, 0, 0⟩ ∧
      snapChildren (snapSeparators oid) = [⟨false, oid⟩, ⟨false, 30⟩] ∧ [oid, 30].Nodup := by
    unfold IsNewest
    decide
  obtain ⟨hsorted, hfirst, hsecond, hlink, hnodup⟩ := hfacts oid hoid
  have homap : ObjectMapOn img 4096 0 (.leaf 1 (snapMapped oid)) :=
    .of_leaf (by decide) (by decide) (hblock rfl) (.of_packed 7 0 (hblock rfl) hmap) hsorted
  obtain ⟨om, hom, htree⟩ := homap.omapTree hbs
  have hleaf : ∀ {oid p : ℕ} {e : OmapEntry} {es : List Entry},
      om.resolve img oid 1 4096 = .ok e → e.paddr = p → NodeOn img 4096 .fsTree p (.leaf es) →
      fetchSnap img om 1 4096 ⟨false, oid⟩ = .ok (.leaf es) := by
    intro oid p e es hresolve hp hnode
    refine fetchSnap_of_nodeOn hbs ?_ hnode
    rw [snapPaddr, if_neg Bool.false_ne_true, hresolve, map_ok, hp]
  refine ⟨⟨om, _, _, hom, htree, ?_⟩, hnodup⟩
  have hheight : (snapShape oid).height = 2 := rfl
  refine Shape.explore_eq (t := snapShape oid) (fun s hs => ?_) (fun s hs => ?_)
    (hheight.trans_le (by decide))
  all_goals
    simp only [snapShape, Shape.isSubtree_index, List.mem_cons, List.not_mem_nil, or_false,
      exists_eq_or_imp, exists_eq_left, Shape.isSubtree_leaf] at hs
    rcases hs with rfl | rfl | rfl
  · exact fetchSnap_of_nodeOn hbs rfl (.of_packed 1 1 (hblock rfl) hroot)
  · exact hleaf (htree.resolve_eq_ok_iff.mpr hfirst) rfl (.of_packed 2 0 (hblock rfl) hearly)
  · exact hleaf (htree.resolve_eq_ok_iff.mpr hsecond) rfl (.of_packed 2 0 (hblock rfl) hlate)
  · rintro _ ⟨⟩
    exact hlink
  · rintro _ ⟨⟩
  · rintro _ ⟨⟩

/-- The first image holds a well-formed tree, and its snapshots are enumerated. -/
theorem snap_enumerated :
    SnapTree snapImage snapVolume 4096 [20, 30] (snapEarly ++ snapLate) ∧
      SnapshotsComplete snapImage snapVolume 4096 (snapEarly ++ snapLate) := by
  have h : SnapTree snapImage snapVolume 4096 [20, 30] (snapEarly ++ snapLate) :=
    snapTree_of_blocks (by decide) rfl
  exact ⟨h, (snapshots_complete_iff h).mpr (by decide)⟩

/-- The second image holds a well-formed tree as well, and its snapshots are not enumerated. -/
theorem clash_not_enumerated :
    SnapTree clashImage snapVolume 4096 [2, 30] (snapEarly ++ snapLate) ∧
      ¬SnapshotsComplete clashImage snapVolume 4096 (snapEarly ++ snapLate) := by
  have h : SnapTree clashImage snapVolume 4096 [2, 30] (snapEarly ++ snapLate) :=
    snapTree_of_blocks (by decide) rfl
  refine ⟨h, ?_⟩
  rintro ⟨⟨snaps, hsnaps, -, -⟩, -⟩
  obtain ⟨rs, hrs, -⟩ := bind_eq_ok.mp hsnaps
  exact absurd (h.forEachSnapRecord_eq_ok_iff.mp hrs).2 (by decide)

end ApfsCore
