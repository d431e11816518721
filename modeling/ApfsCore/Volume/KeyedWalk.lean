import ApfsCore.Volume.Navigate

/-!
# The keyed walk delivers what the full walk delivers for its object id

The keyed walk skips a child when its separator is above the target or the next separator is
below it. In a tree ordered by object id (`FsTreeOrdered`) no record of the target lies below
a skipped child, so pruning loses nothing (`explore_prune`); and since it meets a sublist of
the nodes the full walk meets, it trips no guard the full walk does not trip
(`forEachFsRecordForOid_of_full`). Each navigation operation looks only at the records of its
object id, so it answers as if it had filtered the full walk.
-/

namespace ApfsCore

/-! ### Trees ordered by object id -/

/-- The separators of an index node bound the object ids below its children: separator `i` is
not above, and separator `i + 1` not below, any record below child `i`. -/
def OrderedChildren (below : ℕ → List Entry) (es : List Entry) : Prop :=
  ∀ i e, es[i]? = some e → ∀ r ∈ below e.child,
    e.oid ≤ r.oid ∧ ∀ e', es[i + 1]? = some e' → r.oid ≤ e'.oid

/-- The file-system tree of a volume is ordered by object id. -/
def FsTreeOrdered (img : Image) (v : ApfsVolume) (blockSize : ℕ) : Prop :=
  ∀ omap, readObjectMap img v.omapOid blockSize = .ok omap →
    ForallNode (fetchVirtual img omap v.xid blockSize) (keptChildren none)
      (fun m _ node => ∀ es, node = .index es → OrderedChildren
        (recordsBelow (fetchVirtual img omap v.xid blockSize) (keptChildren none) fstreeCycle m)
        es)
      maxFstreeDepth v.rootTreeOid

/-- It is enough to look at the tree through the object map the volume has. -/
theorem FsTreeOrdered.of_omap {img : Image} {v : ApfsVolume} {blockSize : ℕ} {om : ObjectMap}
    (hom : readObjectMap img v.omapOid blockSize = .ok om)
    (h : ForallNode (fetchVirtual img om v.xid blockSize) (keptChildren none)
      (fun m _ node => ∀ es, node = .index es → OrderedChildren
        (recordsBelow (fetchVirtual img om v.xid blockSize) (keptChildren none) fstreeCycle m) es)
      maxFstreeDepth v.rootTreeOid) :
    FsTreeOrdered img v blockSize := by
  intro omap homap
  rw [hom, Except.ok.injEq] at homap
  subst homap
  exact h

theorem orderedChildren_nil (below : ℕ → List Entry) : OrderedChildren below [] := by
  intro i e he
  simp at he

theorem OrderedChildren.cons {below : ℕ → List Entry} {e : Entry} {es : List Entry}
    (hhead : ∀ r ∈ below e.child, e.oid ≤ r.oid ∧ es.head?.all fun e' => r.oid ≤ e'.oid)
    (htail : OrderedChildren below es) : OrderedChildren below (e :: es) := by
  intro i e₁ he₁ r hr
  cases i with
  | zero =>
    rw [List.getElem?_cons_zero, Option.some.injEq] at he₁
    subst he₁
    refine ⟨(hhead r hr).1, fun e' he' => ?_⟩
    have hnext := (hhead r hr).2
    rw [List.getElem?_cons_succ, ← List.head?_eq_getElem?] at he'
    rw [he'] at hnext
    simpa using hnext
  | succ i =>
    rw [List.getElem?_cons_succ] at he₁
    exact htail i e₁ he₁ r hr

theorem OrderedChildren.tail {below : ℕ → List Entry} {e : Entry} {es : List Entry}
    (h : OrderedChildren below (e :: es)) : OrderedChildren below es := by
  intro i e' he' r hr
  exact h (i + 1) e' (by rwa [List.getElem?_cons_succ]) r hr

/-- No record of the target lies below a child that the pruning rule skips. -/
private theorem OrderedChildren.not_mem_of_skipped {below : ℕ → List Entry} {e : Entry}
    {es : List Entry} (h : OrderedChildren below (e :: es)) {target : ℕ}
    (hskip : childMayContainOid e.oid (es.head?.map Entry.oid) target = false) :
    ∀ r ∈ below e.child, (r.oid == target) = false := by
  intro r hr
  obtain ⟨hlow, hhigh⟩ := h 0 e rfl r hr
  rw [childMayContainOid, Bool.and_eq_false_iff, decide_eq_false_iff_not] at hskip
  rw [beq_eq_false_iff_ne]
  rcases hskip with hsep | hnext
  · omega
  · -- the next separator exists and is below the target
    cases es with
    | nil => cases hnext
    | cons e' es =>
      have hle := hhigh e' rfl
      simp only [List.head?_cons, Option.map_some, Option.all_some,
        decide_eq_false_iff_not] at hnext
      omega

/-- The children of a keyed walk are those of the full walk, except for some without records
of the target. -/
theorem OrderedChildren.prunes {below : ℕ → List Entry} {es : List Entry}
    (h : OrderedChildren below es) (target : ℕ) :
    Prunes (fun c => ∀ r ∈ below c, (r.oid == target) = false) (keptChildren none es)
      (keptChildren (some target) es) := by
  induction es with
  | nil => exact .nil
  | cons e es ih =>
    have htail := ih h.tail
    rw [keptChildren, keptChildren]
    simp only [Option.all_none, if_true, Option.all_some]
    split_ifs with hkeep
    · exact .keep _ htail
    · exact .drop (h.not_mem_of_skipped (by simpa using hkeep)) htail

/-! ### The keyed walk -/

section Keyed

variable {img : Image} {v : ApfsVolume} {blockSize : ℕ} {rs : List Entry}

/-- **Pruning loses and invents nothing.** On a tree ordered by object id whose full walk
succeeds, the keyed walk succeeds, and delivers the same records of its target in the same
order. -/
theorem forEachFsRecordForOid_of_full (hfull : walkFsTree img v blockSize none = .ok rs)
    (hord : FsTreeOrdered img v blockSize) (target : ℕ) :
    ∃ rs', forEachFsRecordForOid img v blockSize target = .ok rs' ∧
      rs'.filter (fun r => r.oid == target) = rs.filter fun r => r.oid == target := by
  obtain ⟨omap, as, homap, hex, hnodup⟩ := walkFsTree_eq_ok_iff.mp hfull
  have hprune : ForallNode (fetchVirtual img omap v.xid blockSize) (keptChildren none)
      (fun m _ node => ∀ es, node = .index es → Prunes
        (fun c => ∀ r ∈ recordsBelow (fetchVirtual img omap v.xid blockSize) (keptChildren none)
          fstreeCycle m c, (r.oid == target) = false)
        (keptChildren none es) (keptChildren (some target) es))
      maxFstreeDepth v.rootTreeOid :=
    (hord omap homap).imp fun m a node hnode es hes => (hnode es hes).prunes target
  -- the keyed walk meets a sublist of the nodes, so it meets none twice either
  obtain ⟨as', rs', hex', hsub, hfil⟩ := explore_prune hex hprune
  exact ⟨rs', walkFsTree_eq_ok_iff.mpr ⟨omap, as', homap, hex', hnodup.sublist hsub⟩, hfil⟩

/-- Leaving out records that a listing ignores does not change the listing. -/
theorem filterMap_filter_of_ignored {γ : Type} {f : Entry → Option γ} {p : Entry → Bool}
    (h : ∀ e, p e = false → f e = none) (l : List Entry) :
    (l.filter p).filterMap f = l.filterMap f := by
  rw [List.filterMap_filter]
  congr 1
  funext e
  split_ifs with he
  · rfl
  · exact (h e (Bool.eq_false_iff.mpr he)).symm

/-- A filter that ignores the records of other objects gives the same on two lists with the
same records of the target. -/
private theorem filterMap_eq_of_filter_oid {γ : Type} {f : Entry → Option γ} {target : ℕ}
    (hf : ∀ e, e.oid ≠ target → f e = none) {l l' : List Entry}
    (h : l.filter (fun r => r.oid == target) = l'.filter fun r => r.oid == target) :
    l.filterMap f = l'.filterMap f := by
  have hignored : ∀ e : Entry, (e.oid == target) = false → f e = none :=
    fun e he => hf e (beq_eq_false_iff_ne.mp he)
  rw [← filterMap_filter_of_ignored hignored l, h, filterMap_filter_of_ignored hignored l']

private theorem findSome?_eq_of_filter_oid {γ : Type} {f : Entry → Option γ} {target : ℕ}
    (hf : ∀ e, e.oid ≠ target → f e = none) {l l' : List Entry}
    (h : l.filter (fun r => r.oid == target) = l'.filter fun r => r.oid == target) :
    l.findSome? f = l'.findSome? f := by
  rw [← List.head?_filterMap, ← List.head?_filterMap, filterMap_eq_of_filter_oid hf h]

/-- An entry of another object is no entry of the directory. -/
private theorem dirEntryOf_of_ne {parentOid : ℕ} {e : Entry} (h : e.oid ≠ parentOid) :
    dirEntryOf parentOid e = none :=
  if_pos (.inr h)

variable (hfull : walkFsTree img v blockSize none = .ok rs)
  (hord : FsTreeOrdered img v blockSize)

include hfull hord

theorem listDir_of_full (parentOid : ℕ) :
    listDir img v parentOid blockSize = .ok (dirEntries parentOid rs) := by
  obtain ⟨rs', hrs', hfil⟩ := forEachFsRecordForOid_of_full hfull hord parentOid
  rw [listDir, hrs', map_ok, dirEntries,
    filterMap_eq_of_filter_oid (fun e he => dirEntryOf_of_ne he) hfil, dirEntries]

theorem loadInode_of_full (oid : ℕ) :
    loadInode img v oid blockSize = inodeOf oid v.xid rs := by
  obtain ⟨rs', hrs', hfil⟩ := forEachFsRecordForOid_of_full hfull hord oid
  have hvalue : inodeValue oid rs' = inodeValue oid rs :=
    findSome?_eq_of_filter_oid (fun e he => if_neg fun h => he h.2) hfil
  rw [loadInode, hrs', ok_bind, inodeOf, hvalue, inodeOf]

theorem listXattrs_of_full (inodeOid : ℕ) :
    listXattrs img v inodeOid blockSize = .ok (xattrs inodeOid rs) := by
  obtain ⟨rs', hrs', hfil⟩ := forEachFsRecordForOid_of_full hfull hord inodeOid
  rw [listXattrs, hrs', map_ok, xattrs,
    filterMap_eq_of_filter_oid (fun e he => if_pos (.inr he)) hfil, xattrs]

theorem getXattr_of_full (inodeOid : ℕ) (name : Str) :
    getXattr img v inodeOid name blockSize = .ok (xattrNamed name (xattrs inodeOid rs)) := by
  rw [getXattr, listXattrs_of_full hfull hord, map_ok]

theorem listExtents_of_full (streamOid : ℕ) :
    listExtents img v streamOid blockSize = .ok (sortExtents (fileExtents streamOid rs)) := by
  obtain ⟨rs', hrs', hfil⟩ := forEachFsRecordForOid_of_full hfull hord streamOid
  rw [listExtents, hrs', ok_bind, fileExtents,
    filterMap_eq_of_filter_oid (fun e he => if_pos (.inr he)) hfil, fileExtents]

end Keyed

/-- **The keyed walk matches the full walk.** When the full walk succeeds on a tree ordered by
object id, the keyed walk of any target succeeds with the same records of the target, and
every listing answers as it would over the full list of records. -/
theorem keyed_walk_matches_full_walk (img : Image) (v : ApfsVolume) (blockSize : ℕ)
    (rs : List Entry) (hfull : walkFsTree img v blockSize none = .ok rs)
    (hord : FsTreeOrdered img v blockSize) (target : ℕ) :
    (∃ rs', forEachFsRecordForOid img v blockSize target = .ok rs' ∧
      rs'.filter (fun r => r.oid == target) = rs.filter fun r => r.oid == target) ∧
    listDir img v target blockSize = .ok (dirEntries target rs) ∧
    loadInode img v target blockSize = inodeOf target v.xid rs ∧
    listXattrs img v target blockSize = .ok (xattrs target rs) ∧
    listExtents img v target blockSize = .ok (sortExtents (fileExtents target rs)) :=
  ⟨forEachFsRecordForOid_of_full hfull hord target, listDir_of_full hfull hord target,
    loadInode_of_full hfull hord target, listXattrs_of_full hfull hord target,
    listExtents_of_full hfull hord target⟩

/-! A tree of two leaves over which the records of the root directory spill. -/

/-- The records of the first leaf: the root directory's inode and its first entry. -/
private def spillLeft : List Entry :=
  [⟨encodeJkey 3 2, leBytes 8 1⟩, encodeDirEntry 2 97 16]

/-- The records of the second leaf: the second entry, and an inode. -/
private def spillRight : List Entry :=
  [encodeDirEntry 2 98 17, ⟨encodeJkey 3 16, leBytes 8 2⟩]

/-- The index node above the leaves. -/
private def spillRoot : List Entry :=
  [⟨encodeJkey 3 2, leBytes 8 11⟩, ⟨encodeJkey 9 2, leBytes 8 12⟩]

/-- The object map header and tree, and the three nodes, with ids 10, 11 and 12. -/
def spillImage : Image where
  bytes := encodeObjectMap 1 208 ++
    encodeNode 7 0 [encodeOmapEntry 10 1 2, encodeOmapEntry 11 1 3, encodeOmapEntry 12 1 4] 208 ++
    encodeNode 1 1 spillRoot 208 ++ encodeNode 2 0 spillLeft 208 ++ encodeNode 2 0 spillRight 208
  length_lt := by decide +kernel

/-- The volume over it, at transaction 1. -/
def spillVolume : ApfsVolume :=
  ⟨0, 1, 0, 0, 0, 0, 0, 0, 10, 0, 0, [], 0, []⟩

private theorem spill_ordered : FsTreeOrdered spillImage spillVolume 208 := by
  have hom : readObjectMap spillImage spillVolume.omapOid 208 = .ok ⟨0, 0, 1, 0⟩ := by
    decide +kernel
  have hroot : fetchVirtual spillImage ⟨0, 0, 1, 0⟩ 1 208 10 = .ok (.index spillRoot) := by
    decide +kernel
  have hleft : fetchVirtual spillImage ⟨0, 0, 1, 0⟩ 1 208 11 = .ok (.leaf spillLeft) := by
    decide +kernel
  have hright : fetchVirtual spillImage ⟨0, 0, 1, 0⟩ 1 208 12 = .ok (.leaf spillRight) := by
    decide +kernel
  refine .of_omap hom (ForallNode.of_index hroot ?_ fun c hc => ?_)
  · intro es hes
    cases hes
    exact .cons (by decide +kernel) (.cons (by decide +kernel) (orderedChildren_nil _))
  · have hcs : keptChildren none spillRoot = [11, 12] := by decide
    rw [hcs, List.mem_pair] at hc
    rcases hc with rfl | rfl
    · exact ForallNode.of_leaf hleft fun es hes => by cases hes
    · exact ForallNode.of_leaf hright fun es hes => by cases hes

/-- The listing of the root directory has the entries of both leaves. -/
theorem spill_list_dir :
    listDir spillImage spillVolume 2 208 =
      .ok [⟨"a".toList, 16, 0, 0⟩, ⟨"b".toList, 17, 0, 0⟩] := by
  have h := keyed_walk_matches_full_walk spillImage spillVolume 208 (spillLeft ++ spillRight)
    (by decide +kernel) spill_ordered 2
  rw [h.2.1]
  decide +kernel

end ApfsCore
