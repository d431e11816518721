import ApfsCore.Tree.Written
import ApfsCore.Volume.KeyedWalk
import ApfsCore.Volume.Paths
import ApfsCore.Volume.Records

/-!
# A written volume is read back

`Contents` is what a volume is for: inodes, directories, attributes and extents, found by id and by
name, with no trees, blocks or bytes. `VolumeOn` says that an image has the contents: an object map
and a file-system tree of any shape, whose nodes lie in any blocks in any layout, with the records
of the contents in the leaves. Over such an image every navigation operation of the crate answers
from the contents, and fails only where they lack what is asked for (`written_volume_reads_back`).

Asked of the image is what the writer of a volume keeps: checksums, separators that carry the first
key below them, keys that increase, and for every node of the file-system tree a newest mapping
that leads to it. Mappings of other ids and of newer transactions may be among the others.
-/

namespace ApfsCore

/-! ### The abstract volume -/

/-- The records of a volume, by object id. -/
structure Contents where
  records : List FsRecord
  sorted : records.Pairwise fun r r' => r.oid ≤ r'.oid

namespace Contents

variable (c : Contents)

/-- The entries of a directory. -/
def listing (parent : ℕ) : List DirEntry :=
  c.records.filterMap (FsRecord.entryIn parent)

/-- The child of a directory of the given name. -/
def child (parent : ℕ) (name : Str) : Option ℕ :=
  (entryNamed name (c.listing parent)).map DirEntry.fileId

/-- The inode of an id. -/
def inode (oid : ℕ) : Option Inode :=
  c.records.findSome? (FsRecord.inodeWith oid)

/-- The inode of an id; failing that, the id. -/
def inodeOrId (oid : ℕ) : Except ℕ Inode :=
  match c.inode oid with
  | some i => .ok i
  | none => .error oid

/-- One step of a path; failing that, the directory it stops at. -/
def step (parent : ℕ) (name : Str) : Except ℕ ℕ :=
  match c.child parent name with
  | some oid => .ok oid
  | none => .error parent

/-- The inode a path leads to; failing that, the id at which it stops. -/
def resolve (path : Str) : Except ℕ Inode :=
  (pathComponents path).foldlM c.step rootDirInoNum >>= c.inodeOrId

/-- The attributes of an inode. -/
def attributes (oid : ℕ) : List Xattr :=
  c.records.filterMap (FsRecord.attributeOf oid)

/-- The value of an attribute. -/
def attributeNamed (oid : ℕ) (name : Str) : Option XattrValue :=
  xattrNamed name (c.attributes oid)

/-- The target of a symbolic link. -/
def linkTarget (oid : ℕ) : Option Str :=
  match c.attributeNamed oid xattrNameSymlink with
  | some (.embedded bytes) => some (decodeCstr bytes)
  | _ => none

/-- The extents of a stream, by offset. -/
def extents (streamOid : ℕ) : List FileExtent :=
  sortExtents (c.records.filterMap (FsRecord.extentOf streamOid))

end Contents

/-- An id that the abstract volume misses, as the crate reports it at a transaction. -/
def orUnresolved {α : Type} (xid : ℕ) (x : Except ℕ α) : Result α :=
  x.mapError fun oid => .apfs (.omapUnresolved oid xid)

/-- The navigation operations of the crate answer from the contents. -/
structure NavigatesAs (img : Image) (v : ApfsVolume) (blockSize : ℕ) (c : Contents) : Prop where
  list_dir : ∀ parent, listDir img v parent blockSize = .ok (c.listing parent)
  lookup_child : ∀ parent name,
    lookupChild img v parent name blockSize = .ok (c.child parent name)
  load_inode : ∀ oid, loadInode img v oid blockSize = orUnresolved v.xid (c.inodeOrId oid)
  open_path : ∀ path, openPath img v path blockSize = orUnresolved v.xid (c.resolve path)
  list_xattrs : ∀ oid, listXattrs img v oid blockSize = .ok (c.attributes oid)
  get_xattr : ∀ oid name, getXattr img v oid name blockSize = .ok (c.attributeNamed oid name)
  symlink_target : ∀ oid, symlinkTarget img v oid blockSize = .ok (c.linkTarget oid)
  list_extents : ∀ streamOid, listExtents img v streamOid blockSize = .ok (c.extents streamOid)

/-! ### Volumes on an image -/

/-- The image has the contents: `mappings` is the tree of the object map, and `tree` the
file-system tree, whose nodes have virtual ids for addresses. -/
structure VolumeOn (img : Image) (v : ApfsVolume) (blockSize : ℕ) (mappings tree : Shape ℕ Entry)
    (c : Contents) : Prop where
  blockSize_ne : blockSize ≠ 0
  omap : ObjectMapOn img blockSize v.omapOid mappings
  nodes : ∀ s : Shape ℕ Entry, s.IsSubtree tree → ∃ e,
    IsNewest s.address v.xid (mappings.entries.map OmapEntry.ofEntry) e ∧
      NodeOn img blockSize .fsTree e.paddr s.node
  separated : ∀ s : Shape ℕ Entry, s.IsSubtree tree → s.Separated Entry.oid Entry.child
  root : tree.address = v.rootTreeOid
  height : tree.height ≤ maxFstreeDepth
  nodup : tree.addresses.Nodup
  entries : tree.entries = c.records.map FsRecord.encode

section Volumes

variable {img : Image} {v : ApfsVolume} {blockSize : ℕ} {mappings tree : Shape ℕ Entry}
  {c : Contents}

/-- The full walk passes over no child. -/
theorem keptChildren_none (es : List Entry) : keptChildren none es = es.map Entry.child := by
  induction es with
  | nil => rfl
  | cons e es ih => rw [keptChildren, Option.all_none, if_pos rfl, ih, List.map_cons]

/-- Every node of the file-system tree is what its id resolves to. -/
theorem VolumeOn.fetchVirtual_eq (h : VolumeOn img v blockSize mappings tree c) :
    ∃ om, readObjectMap img v.omapOid blockSize = .ok om ∧
      ∀ s : Shape ℕ Entry, s.IsSubtree tree →
        fetchVirtual img om v.xid blockSize s.address = .ok s.node := by
  obtain ⟨om, hom, htree⟩ := h.omap.omapTree h.blockSize_ne
  refine ⟨om, hom, fun s hs => ?_⟩
  obtain ⟨e, hnewest, hnode⟩ := h.nodes s hs
  obtain ⟨buf, hbuf, hdecode⟩ := hnode.exists_block
  rw [fetchVirtual, htree.resolve_eq_ok_iff.mpr hnewest, ok_bind,
    (readVerifiedBlock_eq_ok_iff h.blockSize_ne).mpr hbuf, ok_bind, hdecode]

theorem VolumeOn.linked (h : VolumeOn img v blockSize mappings tree c) :
    ∀ s : Shape ℕ Entry, s.IsSubtree tree → s.Linked (keptChildren none) := by
  intro s hs seps hseps
  rw [keptChildren_none]
  exact (h.separated s hs).linked seps hseps

/-- The full walk delivers the records, as they were written. -/
theorem VolumeOn.walkFsTree_eq (h : VolumeOn img v blockSize mappings tree c) :
    walkFsTree img v blockSize none = .ok (c.records.map FsRecord.encode) := by
  obtain ⟨om, hom, hfetch⟩ := h.fetchVirtual_eq
  refine walkFsTree_eq_ok_iff.mpr ⟨om, tree.addresses, hom, ?_, h.nodup⟩
  rw [← h.root, ← h.entries]
  exact Shape.explore_eq hfetch h.linked h.height

/-- The keys of the records increase in the order of the tree. -/
theorem VolumeOn.pairwise_entries (h : VolumeOn img v blockSize mappings tree c) :
    tree.entries.Pairwise fun r r' => r.oid ≤ r'.oid := by
  rw [h.entries, List.pairwise_map]
  refine c.sorted.imp fun {r r'} hle => ?_
  rwa [r.encode_key.1, r'.encode_key.1]

/-- The tree is ordered by object id. -/
theorem VolumeOn.ordered (h : VolumeOn img v blockSize mappings tree c) :
    FsTreeOrdered img v blockSize := by
  obtain ⟨om, hom, hfetch⟩ := h.fetchVirtual_eq
  refine .of_omap hom ?_
  rw [← h.root]
  refine Shape.forallNode hfetch h.linked (fun s hs m hm es hes i e he r hr => ?_) h.height
  -- the child of a separator is the root of the subtree in its place
  have hsep := h.separated s hs
  obtain ⟨t, ht, haddress⟩ := hsep.exists_subtree hes he
  have hmem : t ∈ s.subtrees := List.mem_of_getElem? ht
  have hbelow : ∀ s' : Shape ℕ Entry, s'.IsSubtree t → s'.IsSubtree tree := fun s' hs' =>
    (hs'.trans (Shape.isSubtree_of_mem hmem)).trans hs
  have hheight : t.height ≤ m := by
    cases s with
    | leaf a es => cases hmem
    | index a seps ts =>
      exact Nat.le_trans (Shape.height_le_heightAll hmem) (Nat.le_of_succ_le_succ hm)
  rw [haddress, Shape.recordsBelow_eq (fun s' hs' => hfetch s' (hbelow s' hs'))
    (fun s' hs' => h.linked s' (hbelow s' hs')) hheight] at hr
  exact hsep.bounds (h.pairwise_entries.sublist hs.entries_sublist) hes he ht hr

/-- A volume whose file-system tree is one leaf. -/
theorem VolumeOn.of_leaf {oid : ℕ} {e : OmapEntry} (hbs : blockSize ≠ 0)
    (homap : ObjectMapOn img blockSize v.omapOid mappings) (hroot : oid = v.rootTreeOid)
    (hmapped : IsNewest oid v.xid (mappings.entries.map OmapEntry.ofEntry) e)
    (hnode : NodeOn img blockSize .fsTree e.paddr (.leaf (c.records.map FsRecord.encode))) :
    VolumeOn img v blockSize mappings (.leaf oid (c.records.map FsRecord.encode)) c where
  blockSize_ne := hbs
  omap := homap
  nodes := by
    intro s hs
    rw [Shape.isSubtree_leaf] at hs
    subst hs
    exact ⟨e, hmapped, hnode⟩
  separated := by
    intro s hs
    rw [Shape.isSubtree_leaf] at hs
    subst hs
    rintro _ ⟨⟩
  root := hroot
  height := Nat.le_add_left 1 63
  nodup := List.nodup_singleton _
  entries := rfl

/-! ### Navigation -/

section Navigation

variable (h : VolumeOn img v blockSize mappings tree c)

include h

theorem VolumeOn.listDir_eq (parent : ℕ) :
    listDir img v parent blockSize = .ok (c.listing parent) := by
  rw [listDir_of_full h.walkFsTree_eq h.ordered, FsRecord.dirEntries_encode, Contents.listing]

theorem VolumeOn.loadInode_eq (oid : ℕ) :
    loadInode img v oid blockSize = orUnresolved v.xid (c.inodeOrId oid) := by
  rw [loadInode_of_full h.walkFsTree_eq h.ordered, FsRecord.inodeOf_encode, Contents.inodeOrId,
    Contents.inode]
  cases c.records.findSome? (FsRecord.inodeWith oid) <;> rfl

theorem VolumeOn.listXattrs_eq (oid : ℕ) :
    listXattrs img v oid blockSize = .ok (c.attributes oid) := by
  rw [listXattrs_of_full h.walkFsTree_eq h.ordered, FsRecord.xattrs_encode, Contents.attributes]

theorem VolumeOn.getXattr_eq (oid : ℕ) (name : Str) :
    getXattr img v oid name blockSize = .ok (c.attributeNamed oid name) := by
  rw [getXattr, h.listXattrs_eq, map_ok, Contents.attributeNamed]

theorem VolumeOn.listExtents_eq (streamOid : ℕ) :
    listExtents img v streamOid blockSize = .ok (c.extents streamOid) := by
  rw [listExtents_of_full h.walkFsTree_eq h.ordered, FsRecord.fileExtents_encode,
    Contents.extents]

/-- One step of a path, by the directory listing. -/
theorem VolumeOn.openComponent_eq (parent : ℕ) (name : Str) :
    openComponent img v blockSize parent name = orUnresolved v.xid (c.step parent name) := by
  rw [openComponent_eq_listDir, h.listDir_eq, ok_bind, Contents.step, Contents.child]
  cases entryNamed name (c.listing parent) <;> rfl

end Navigation

theorem orUnresolved_bind {α β : Type} (xid : ℕ) (x : Except ℕ α) (f : α → Except ℕ β) :
    orUnresolved xid (x >>= f) = orUnresolved xid x >>= fun a => orUnresolved xid (f a) := by
  cases x with
  | error oid => rfl
  | ok a => rfl

theorem orUnresolved_foldlM {α β : Type} (xid : ℕ) (f : β → α → Except ℕ β) (l : List α) (b : β) :
    orUnresolved xid (l.foldlM f b) = l.foldlM (fun b a => orUnresolved xid (f b a)) b := by
  induction l generalizing b with
  | nil => rfl
  | cons a l ih =>
    rw [List.foldlM_cons, List.foldlM_cons, orUnresolved_bind]
    simp only [ih]

end Volumes

/-- **A written volume is read back.** Whatever the shape of the trees, the place of the blocks and
the layout of the nodes, every navigation operation answers from the contents that were written,
and reports an id as unresolved exactly where the contents lack it. -/
theorem written_volume_reads_back (img : Image) (v : ApfsVolume) (blockSize : ℕ)
    (mappings tree : Shape ℕ Entry) (c : Contents)
    (h : VolumeOn img v blockSize mappings tree c) : NavigatesAs img v blockSize c where
  list_dir := h.listDir_eq
  lookup_child parent name := by
    rw [lookupChild_eq_listDir, h.listDir_eq, map_ok, Contents.child]
  load_inode := h.loadInode_eq
  open_path path := by
    have hstep : openComponent img v blockSize = fun parent name =>
        orUnresolved v.xid (c.step parent name) :=
      funext fun parent => funext fun name => h.openComponent_eq parent name
    rw [openPath_eq_foldlM, hstep, ← orUnresolved_foldlM, Contents.resolve, orUnresolved_bind]
    simp only [h.loadInode_eq]
  list_xattrs := h.listXattrs_eq
  get_xattr := h.getXattr_eq
  symlink_target oid := by
    rw [symlinkTarget, h.getXattr_eq, ok_bind, Contents.linkTarget]
    cases c.attributeNamed oid xattrNameSymlink with
    | none => rfl
    | some value => cases value <;> rfl
  list_extents := h.listExtents_eq

/-! A volume with one file, whose tree has two leaves. -/

/-- The inode of the root directory. -/
def sampleDir : Inode :=
  ⟨2, 1, 2, 0, 0, 0, 0, 0, 1, 0, 0, 0, 0x41ED, none, none⟩

/-- The inode of the file, with three bytes of content. -/
def sampleFile : Inode :=
  ⟨16, 2, 16, 1, 2, 3, 4, 0, 1, 0, 501, 20, 0x81A4, none, some 3⟩

theorem sampleDir_fits : sampleDir.Fits := by
  constructor
  case name => exact fun _ h => by cases h
  case size => exact fun _ h => by cases h
  all_goals decide

theorem sampleFile_fits : sampleFile.Fits := by
  constructor
  case name => exact fun _ h => by cases h
  case size =>
    rintro _ ⟨⟩
    decide
  all_goals decide

/-- What is not read of an inode. -/
def sampleUnread : InodeUnread :=
  ⟨0, 0, 0, 0⟩

/-- The entry of the file in the root directory. -/
def sampleEntry : DirEntry :=
  ⟨"a".toList, 16, 0, 8⟩

theorem sampleEntry_fits : DirRecFits 2 (some 5) sampleEntry := by
  constructor
  case hash =>
    rintro _ ⟨⟩
    decide
  all_goals decide

/-- The extent of the file. -/
def sampleExtent : FileExtent :=
  ⟨0, 320, 5⟩

private theorem sampleExtent_fits : ExtentFits 16 sampleExtent 0 0 := by
  constructor <;> decide

/-- The records of the first leaf. -/
private def sampleLeft : List FsRecord :=
  [.inode sampleDir sampleUnread sampleDir_fits, .dirRec 2 (some 5) sampleEntry [] sampleEntry_fits]

/-- The records of the second leaf. -/
private def sampleRight : List FsRecord :=
  [.inode sampleFile sampleUnread sampleFile_fits,
    .fileExtent 16 sampleExtent 0 0 sampleExtent_fits]

/-- The contents of the volume. -/
def sampleContents : Contents where
  records := sampleLeft ++ sampleRight
  sorted := by decide

/-- The separators of the root. -/
private def sampleRoot : List Entry :=
  [⟨encodeJkey 3 2, leBytes 8 11⟩, ⟨encodeJkey 3 16, leBytes 8 12⟩]

/-- The file-system tree. -/
def sampleTree : Shape ℕ Entry :=
  .index 10 sampleRoot
    [.leaf 11 (sampleLeft.map FsRecord.encode), .leaf 12 (sampleRight.map FsRecord.encode)]

/-- The mappings of the three nodes. -/
private def sampleMapped : List Entry :=
  [encodeOmapEntry 10 1 2, encodeOmapEntry 11 1 3, encodeOmapEntry 12 1 4]

/-- The tree of the object map. -/
def sampleMappings : Shape ℕ Entry :=
  .leaf 1 sampleMapped

/-- The blocks of the image: the object map and its tree, the three nodes, and the file. -/
private def sampleBlocks : List Bytes :=
  [encodeObjectMap 1 320, encodeNode 7 0 sampleMapped 320, encodeNode 1 1 sampleRoot 320,
    encodeNode 2 0 (sampleLeft.map FsRecord.encode) 320,
    encodeNode 2 0 (sampleRight.map FsRecord.encode) 320, [65, 66, 67] ++ List.replicate 317 0]

/-- The image. -/
def sampleImage : Image where
  bytes := sampleBlocks.flatten
  length_lt := by decide +kernel

/-- The volume on it, at transaction 1. -/
def sampleVolume : ApfsVolume :=
  ⟨0, 1, 0, 0, 0, 0, 0, 0, 10, 0, 0, [], 0, []⟩

private theorem sample_block {p : ℕ} {block : Bytes} (h : sampleBlocks[p]? = some block) :
    sampleImage.block 320 p = some block :=
  Image.block_of_flatten rfl (by decide +kernel) h

private theorem sample_node {subtype : BTreeSubtype} {p : ℕ} {es : List Entry} (flags level : ℕ)
    (h : sampleBlocks[p]? = some (encodeNode flags level es 320))
    (hpack : Packable subtype flags level es 320) :
    NodeOn sampleImage 320 subtype p
      (if (flags &&& 0x2 != 0) || level == 0 then .leaf es else .index es) :=
  .of_packed flags level (sample_block h) hpack

private theorem sample_omap : ObjectMapOn sampleImage 320 0 sampleMappings :=
  .of_leaf (by decide) (by decide) (sample_block rfl) (sample_node 7 0 (p := 1) rfl (by decide))
    (by decide)

/-- The subtrees of the file-system tree. -/
private theorem sample_subtrees {P : Shape ℕ Entry → Prop} (hroot : P sampleTree)
    (hleft : P (.leaf 11 (sampleLeft.map FsRecord.encode)))
    (hright : P (.leaf 12 (sampleRight.map FsRecord.encode))) :
    ∀ s : Shape ℕ Entry, s.IsSubtree sampleTree → P s := by
  intro s hs
  rw [sampleTree, Shape.isSubtree_index] at hs
  rcases hs with rfl | ⟨t, ht, hs⟩
  · exact hroot
  · rw [List.mem_pair] at ht
    rcases ht with rfl | rfl <;> rw [Shape.isSubtree_leaf] at hs <;> subst hs
    · exact hleft
    · exact hright

theorem sample_volumeOn :
    VolumeOn sampleImage sampleVolume 320 sampleMappings sampleTree sampleContents where
  blockSize_ne := by decide
  omap := sample_omap
  nodes := by
    refine sample_subtrees ⟨⟨10, 1, 2, 0, 0⟩, ⟨by decide, by decide, by decide⟩,
      sample_node 1 1 (p := 2) rfl (by decide)⟩ ⟨⟨11, 1, 3, 0, 0⟩, ?_, ?_⟩
      ⟨⟨12, 1, 4, 0, 0⟩, ?_, ?_⟩
    · exact ⟨by decide, by decide, by decide⟩
    · exact sample_node 2 0 (p := 3) rfl (by decide)
    · exact ⟨by decide, by decide, by decide⟩
    · exact sample_node 2 0 (p := 4) rfl (by decide +kernel)
  separated := by
    refine sample_subtrees ?_ ?_ ?_
    · rintro _ ⟨⟩
      refine .cons ⟨by decide, by decide⟩
        (.cons ⟨by decide, by decide⟩ .nil)
    · rintro _ ⟨⟩
    · rintro _ ⟨⟩
  root := rfl
  height := by decide
  nodup := by decide
  entries := rfl

/-- The file is found by its path. -/
theorem sample_open_path :
    openPath sampleImage sampleVolume "/a".toList 320 = .ok sampleFile := by
  rw [(written_volume_reads_back sampleImage sampleVolume 320 sampleMappings sampleTree
    sampleContents sample_volumeOn).open_path]
  decide

end ApfsCore
