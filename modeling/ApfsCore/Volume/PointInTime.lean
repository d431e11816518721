import ApfsCore.Volume.Navigate

/-!
# Point-in-time isolation

A volume is read at one transaction. Everything a walk of its file-system tree learns from
the image, it learns by resolving node ids at that transaction and reading the blocks they
resolve to. Two images that hold the same object-map entries up to the transaction, and the
same blocks behind them, are therefore indistinguishable to it (`SameView`), whatever later
transactions wrote into the object map and however they reshaped its tree.
-/

namespace ApfsCore

/-- Two images agree on what is visible at a transaction: the object-map entries not newer
than it, and the blocks these point to. -/
structure SameView (img img' : Image) (blockSize xid : ℕ) (es es' : List OmapEntry) : Prop where
  entries : ∀ e : OmapEntry, e.xid ≤ xid → (e ∈ es ↔ e ∈ es')
  blocks : ∀ e ∈ es, e.xid ≤ xid → img.block blockSize e.paddr = img'.block blockSize e.paddr

section TwoImages

variable {img img' : Image} {blockSize : ℕ} {om om' : ObjectMap} {blocks blocks' : List ℕ}
  {records records' : List Entry} {xid : ℕ}

/-- Whether an entry is the newest one depends only on the entries up to the transaction. -/
private theorem IsNewest.congr {oid : ℕ} {es es' : List OmapEntry}
    (h : ∀ e : OmapEntry, e.xid ≤ xid → (e ∈ es ↔ e ∈ es')) {e : OmapEntry}
    (he : IsNewest oid xid es e) : IsNewest oid xid es' e := by
  obtain ⟨hmem, hcand, hmax⟩ := he
  refine ⟨(h e hcand.2).mp hmem, hcand, fun e' he' hcand' => ?_⟩
  exact hmax e' ((h e' hcand'.2).mpr he') hcand'

/-- Lookups at the transaction agree on the two object maps. -/
theorem OmapTree.resolve_congr (ht : OmapTree img blockSize om.treeOid blocks records)
    (ht' : OmapTree img' blockSize om'.treeOid blocks' records')
    (h : ∀ e : OmapEntry, e.xid ≤ xid →
      (e ∈ records.map OmapEntry.ofEntry ↔ e ∈ records'.map OmapEntry.ofEntry)) (oid : ℕ) :
    om.resolve img oid xid blockSize = om'.resolve img' oid xid blockSize := by
  rcases ht.resolve_cases oid xid with ⟨e, he⟩ | hnone
  · have hnew := IsNewest.congr h (ht.resolve_eq_ok_iff.mp he)
    rw [he, ht'.resolve_eq_ok_iff.mpr hnew]
  · have hno := ht.resolve_eq_unresolved_iff.mp hnone
    have hno' : ∀ e ∈ records'.map OmapEntry.ofEntry, ¬e.Candidate oid xid :=
      fun e he hcand => hno e ((h e hcand.2).mpr he) hcand
    rw [hnone, ht'.resolve_eq_unresolved_iff.mpr hno']

/-- Equal blocks are read and verified alike. -/
theorem readVerifiedBlock_congr {paddr : ℕ}
    (h : img.block blockSize paddr = img'.block blockSize paddr) :
    readVerifiedBlock img paddr blockSize = readVerifiedBlock img' paddr blockSize := by
  unfold readVerifiedBlock
  by_cases hbs : blockSize = 0
  · rw [Image.readExact, if_pos hbs, Image.readExact, if_pos hbs]
  · rw [Image.readExact_saturatingMul img hbs, Image.readExact_saturatingMul img' hbs, h]

/-- Every virtual id names the same node in both images. -/
theorem SameView.fetchVirtual_eq (ht : OmapTree img blockSize om.treeOid blocks records)
    (ht' : OmapTree img' blockSize om'.treeOid blocks' records')
    (h : SameView img img' blockSize xid (records.map OmapEntry.ofEntry)
      (records'.map OmapEntry.ofEntry)) (oid : ℕ) :
    fetchVirtual img om xid blockSize oid = fetchVirtual img' om' xid blockSize oid := by
  unfold fetchVirtual
  rw [← ht.resolve_congr ht' h.entries oid]
  cases hres : om.resolve img oid xid blockSize with
  | error e => rfl
  | ok entry =>
    -- the entry found is one of those whose blocks agree
    have hnew := ht.resolve_eq_ok_iff.mp hres
    have hblock := h.blocks entry hnew.1 hnew.2.1.2
    rw [ok_bind, ok_bind, readVerifiedBlock_congr hblock]

end TwoImages

/-- **Point-in-time isolation.** If the object maps of a volume are well formed in two images,
hold the same entries up to the volume's transaction, and these point to equal blocks, then
every navigation operation returns the same in both. -/
theorem point_in_time_isolation (img img' : Image) (v : ApfsVolume) (blockSize : ℕ)
    (om om' : ObjectMap) (blocks blocks' : List ℕ) (records records' : List Entry)
    (hom : readObjectMap img v.omapOid blockSize = .ok om)
    (hom' : readObjectMap img' v.omapOid blockSize = .ok om')
    (ht : OmapTree img blockSize om.treeOid blocks records)
    (ht' : OmapTree img' blockSize om'.treeOid blocks' records')
    (h : SameView img img' blockSize v.xid (records.map OmapEntry.ofEntry)
      (records'.map OmapEntry.ofEntry)) :
    (∀ parentOid, listDir img v parentOid blockSize = listDir img' v parentOid blockSize) ∧
    (∀ parentOid name,
      lookupChild img v parentOid name blockSize = lookupChild img' v parentOid name blockSize) ∧
    (∀ oid, loadInode img v oid blockSize = loadInode img' v oid blockSize) ∧
    (∀ path, openPath img v path blockSize = openPath img' v path blockSize) ∧
    (∀ inodeOid, listXattrs img v inodeOid blockSize = listXattrs img' v inodeOid blockSize) ∧
    ∀ streamOid,
      listExtents img v streamOid blockSize = listExtents img' v streamOid blockSize := by
  have hfetch : fetchVirtual img om v.xid blockSize = fetchVirtual img' om' v.xid blockSize :=
    funext fun oid => SameView.fetchVirtual_eq ht ht' h oid
  -- every operation sees the image through this walk only
  have hwalk : forEachFsRecordForOid img v blockSize = forEachFsRecordForOid img' v blockSize := by
    funext target
    rw [forEachFsRecordForOid, forEachFsRecordForOid, walkFsTree, walkFsTree, hom, hom', ok_bind,
      ok_bind, descendVirtual, descendVirtual, hfetch]
  have hchild : ∀ parentOid name, lookupChild img v parentOid name blockSize =
      lookupChild img' v parentOid name blockSize := by
    intro parentOid name
    rw [lookupChild, lookupChild, hwalk]
  have hinode : ∀ oid, loadInode img v oid blockSize = loadInode img' v oid blockSize := by
    intro oid
    rw [loadInode, loadInode, hwalk]
  refine ⟨fun parentOid => ?_, hchild, hinode, fun path => ?_, fun inodeOid => ?_,
    fun streamOid => ?_⟩
  · rw [listDir, listDir, hwalk]
  · have hcomponent : openComponent img v blockSize = openComponent img' v blockSize := by
      funext current component
      rw [openComponent, openComponent, hchild]
    rw [openPath, openPath, hcomponent]
    simp only [hinode]
  · rw [listXattrs, listXattrs, hwalk]
  · rw [listExtents, listExtents, hwalk]

/-! Two images of one volume: in the second, a later transaction has rewritten the root of the
file-system tree and split the object map into two leaves. -/

/-- The file-system tree, a single leaf. -/
private def plainLeaf : List Entry :=
  [⟨encodeJkey 3 2, leBytes 8 1⟩, encodeDirEntry 2 97 16]

/-- The image at transaction 1. -/
def plainImage : Image where
  bytes := encodeObjectMap 1 160 ++ encodeNode 7 0 [encodeOmapEntry 10 1 2] 160 ++
    encodeNode 3 0 plainLeaf 160
  length_lt := by decide +kernel

/-- The object map's root after the split. -/
private def laterRoot : List Entry :=
  [⟨leBytes 8 10 ++ leBytes 8 1, leBytes 8 4⟩, ⟨leBytes 8 10 ++ leBytes 8 5, leBytes 8 5⟩]

/-- The image after transaction 5. -/
def laterImage : Image where
  bytes := encodeObjectMap 3 160 ++ encodeNode 3 0 [] 160 ++ encodeNode 3 0 plainLeaf 160 ++
    encodeNode 5 1 laterRoot 160 ++ encodeNode 6 0 [encodeOmapEntry 10 1 2] 160 ++
    encodeNode 6 0 [encodeOmapEntry 10 5 1] 160
  length_lt := by decide +kernel

/-- The volume at transaction 1. -/
def plainVolume : ApfsVolume :=
  ⟨0, 1, 0, 0, 0, 0, 0, 0, 10, 0, 0, [], 0, []⟩

private theorem plain_omapTree :
    OmapTree plainImage 160 1 [1] [encodeOmapEntry 10 1 2] :=
  OmapTree.of_leaf (by decide +kernel) (by decide) (by decide +kernel)

private theorem later_omapTree :
    OmapTree laterImage 160 3 [3, 4, 5] [encodeOmapEntry 10 1 2, encodeOmapEntry 10 5 1] := by
  have hroot : fetchNode laterImage 160 .omap 3 = .ok (.index laterRoot) := by decide +kernel
  have hleft : fetchNode laterImage 160 .omap 4 = .ok (.leaf [encodeOmapEntry 10 1 2]) := by
    decide +kernel
  have hright : fetchNode laterImage 160 .omap 5 = .ok (.leaf [encodeOmapEntry 10 5 1]) := by
    decide +kernel
  have hcs : laterRoot.map Entry.child = [4, 5] := by decide
  refine ⟨by decide +kernel, ForallNode.of_index hroot ?_ fun c hc => ?_,
    ForallNode.of_index hroot ?_ fun c hc => ?_⟩
  · exact exists_buf_of_fetchNode hroot (by decide)
  · rw [hcs, List.mem_pair] at hc
    rcases hc with rfl | rfl
    · exact ForallNode.of_leaf hleft (exists_buf_of_fetchNode hleft (by decide))
    · exact ForallNode.of_leaf hright (exists_buf_of_fetchNode hright (by decide))
  · refine ⟨by decide +kernel, ?_, by decide +kernel⟩
    simp only [isLeast_keys_iff]
    decide +kernel
  · rw [hcs, List.mem_pair] at hc
    rcases hc with rfl | rfl
    · exact ForallNode.of_leaf hleft (List.pairwise_singleton _ _)
    · exact ForallNode.of_leaf hright (List.pairwise_singleton _ _)

/-- The later transaction does not change the listing at transaction 1. -/
theorem plain_list_dir_unchanged :
    listDir plainImage plainVolume 2 160 = .ok [⟨"a".toList, 16, 0, 0⟩] ∧
      listDir laterImage plainVolume 2 160 = .ok [⟨"a".toList, 16, 0, 0⟩] := by
  have hview : SameView plainImage laterImage 160 1
      ([encodeOmapEntry 10 1 2].map OmapEntry.ofEntry)
      ([encodeOmapEntry 10 1 2, encodeOmapEntry 10 5 1].map OmapEntry.ofEntry) := by
    have hleft : [encodeOmapEntry 10 1 2].map OmapEntry.ofEntry = [⟨10, 1, 2, 0, 0⟩] := by
      decide +kernel
    have hright : [encodeOmapEntry 10 1 2, encodeOmapEntry 10 5 1].map OmapEntry.ofEntry =
        [⟨10, 1, 2, 0, 0⟩, ⟨10, 5, 1, 0, 0⟩] := by
      decide +kernel
    rw [hleft, hright]
    refine ⟨fun e he => ?_, by decide +kernel⟩
    simp only [List.mem_singleton, List.mem_pair]
    refine ⟨.inl, fun h => h.resolve_right ?_⟩
    rintro rfl
    exact absurd he (by decide)
  have h := point_in_time_isolation plainImage laterImage plainVolume 160 ⟨0, 0, 1, 0⟩
    ⟨0, 0, 3, 0⟩ _ _ _ _ (by decide +kernel) (by decide +kernel) plain_omapTree later_omapTree
    hview
  have hplain : listDir plainImage plainVolume 2 160 = .ok [⟨"a".toList, 16, 0, 0⟩] := by
    decide +kernel
  exact ⟨hplain, (h.1 2).symm.trans hplain⟩

end ApfsCore
