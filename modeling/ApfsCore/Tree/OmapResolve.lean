import ApfsCore.Tree.Omap

/-!
# Object-map lookup agrees with the full scan

`OmapTree` says what a well-formed object-map tree is: it unfolds from its root within the
depth cap, every node met lies in the image with a valid checksum, and the keys of its nodes
guide a search. On such a tree the keyed lookup, which reads one root-to-leaf path, answers
with the newest entry not newer than the requested transaction among *all* leaf entries
(`OmapTree.resolve_eq_ok_iff`), and fails to resolve exactly when there is none
(`OmapTree.resolve_eq_unresolved_iff`). Nothing is assumed about shape, fan-out or height
beyond the cap.
-/

namespace ApfsCore

/-! ### Well-formed object-map trees -/

/-- A well-formed object-map tree stored at the block `root`: `blocks` are the blocks it
occupies and `records` its leaf entries, both in the order of a full walk. An index node
without entries is not excluded. -/
structure OmapTree (img : Image) (blockSize root : ℕ) (blocks : List ℕ) (records : List Entry) :
    Prop where
  /-- The tree has at most `maxBtreeDepth` levels and holds `records`. -/
  unfolds : explore (fetchNode img blockSize .omap) (List.map Entry.child) btreeCycle
    maxBtreeDepth root = .ok (blocks, records)
  /-- Every node lies in the image and its checksum is valid. -/
  inImage : ForallNode (fetchNode img blockSize .omap) (List.map Entry.child)
    (fun _ paddr _ => ∃ buf, readVerifiedNode img paddr blockSize = .ok (some buf))
    maxBtreeDepth root
  /-- In every node the keys increase strictly; every index key is the least key below its
  child, and all keys below a child are under the next index key. -/
  search : SearchTree (fetchNode img blockSize .omap) btreeCycle omapKey Entry.child
    maxBtreeDepth root

/-- A tree of one leaf is well formed when its keys increase. -/
theorem OmapTree.of_leaf {img : Image} {blockSize root : ℕ} {es : List Entry}
    (hf : fetchNode img blockSize .omap root = .ok (.leaf es)) (hoff : root * blockSize < 2 ^ 64)
    (hsorted : es.Pairwise fun e e' => omapKey e < omapKey e') :
    OmapTree img blockSize root [root] es where
  unfolds := explore_succ_eq_ok.mpr (.inl ⟨hf, rfl⟩)
  inImage := ForallNode.of_leaf hf (exists_buf_of_fetchNode hf hoff)
  search := ForallNode.of_leaf hf hsorted

/-- The entry is the newest one for the object id that is not newer than the transaction. -/
def IsNewest (oid xid : ℕ) (es : List OmapEntry) (e : OmapEntry) : Prop :=
  e ∈ es ∧ e.Candidate oid xid ∧ ∀ e' ∈ es, e'.Candidate oid xid → e'.xid ≤ e.xid

/-- A key between a candidate's and the target belongs to a candidate that is at least as
new. -/
private theorem candidate_of_between {oid xid : ℕ} {r r' : Entry}
    (hr : (OmapEntry.ofEntry r).Candidate oid xid) (h₁ : omapKey r ≤ omapKey r')
    (h₂ : omapKey r' ≤ toLex (oid, xid)) :
    (OmapEntry.ofEntry r').Candidate oid xid ∧
      (OmapEntry.ofEntry r).xid ≤ (OmapEntry.ofEntry r').xid := by
  unfold omapKey at h₁ h₂
  rw [Prod.Lex.toLex_le_toLex] at h₁ h₂
  simp only [OmapEntry.Candidate, OmapEntry.ofEntry] at hr ⊢
  omega

/-- A candidate's key does not exceed the target. -/
private theorem omapKey_le_of_candidate {oid xid : ℕ} {r : Entry}
    (hr : (OmapEntry.ofEntry r).Candidate oid xid) : omapKey r ≤ toLex (oid, xid) := by
  rw [omapKey]
  rw [Prod.Lex.toLex_le_toLex]
  simp only [OmapEntry.Candidate, OmapEntry.ofEntry] at hr
  omega

section Resolve

variable {img : Image} {blockSize : ℕ} {om : ObjectMap} {blocks : List ℕ} {records : List Entry}

/-- The lookup lands on a leaf that covers the floor of its target. -/
private theorem OmapTree.findLeaf_covers (h : OmapTree img blockSize om.treeOid blocks records)
    (oid xid : ℕ) :
    ∃ ls, findLeaf img om.treeOid blockSize .omap (omapCmp oid xid) = .ok ls ∧
      CoversFloor omapKey (toLex (oid, xid)) ls records := by
  -- the comparison of the lookup is the order of the keys
  have hcmp : (fun e : Entry => omapCmp oid xid e.key == .gt) =
      fun e => decide (toLex (oid, xid) < omapKey e) := by
    funext e
    rw [Bool.eq_iff_iff, beq_iff_eq, decide_eq_true_eq, omapCmp_eq_gt_iff]
  obtain ⟨ls, hls, hcov⟩ := follow_floor h.search h.unfolds (toLex (oid, xid))
  refine ⟨ls, ?_, hcov⟩
  rw [findLeaf, hcmp, hls]

/-- A leaf that covers the floor holds, for every candidate of the tree, a candidate at least
as new. -/
private theorem exists_candidate_of_covers {oid xid : ℕ} {ls : List Entry} {r : Entry}
    (hcov : CoversFloor omapKey (toLex (oid, xid)) ls records) (hr : r ∈ records)
    (hcand : (OmapEntry.ofEntry r).Candidate oid xid) :
    ∃ e ∈ (ls.map OmapEntry.ofEntry).filter (OmapEntry.Candidate oid xid),
      (OmapEntry.ofEntry r).xid ≤ e.xid := by
  -- the leaf holds an entry between the candidate and the target
  obtain ⟨r', hr', hle, hr't⟩ := hcov.2 r hr (omapKey_le_of_candidate hcand)
  have hle' : omapKey r ≤ omapKey r' := by
    rcases hle with rfl | hlt
    · exact le_rfl
    · exact hlt.le
  obtain ⟨hcand', hxid⟩ := candidate_of_between hcand hle' hr't
  refine ⟨OmapEntry.ofEntry r', ?_, hxid⟩
  rw [List.mem_filter, decide_eq_true_eq]
  exact ⟨List.mem_map_of_mem hr', hcand'⟩

/-- If the floor is covered by a leaf, its candidates already contain a newest entry of all. -/
private theorem isNewest_of_argmax {oid xid : ℕ} {ls : List Entry} {e : OmapEntry}
    (hcov : CoversFloor omapKey (toLex (oid, xid)) ls records)
    (he : ((ls.map OmapEntry.ofEntry).filter (OmapEntry.Candidate oid xid)).argmax
      OmapEntry.xid = some e) :
    IsNewest oid xid (records.map OmapEntry.ofEntry) e := by
  have hmem := List.argmax_mem (Option.mem_def.mpr he)
  rw [List.mem_filter, decide_eq_true_eq, List.mem_map] at hmem
  obtain ⟨⟨r, hr, rfl⟩, hcand⟩ := hmem
  refine ⟨List.mem_map_of_mem (hcov.1 r hr), hcand, ?_⟩
  rintro _ he' hcand'
  obtain ⟨r₁, hr₁, rfl⟩ := List.mem_map.mp he'
  obtain ⟨e₂, hmem₂, hxid⟩ := exists_candidate_of_covers hcov hr₁ hcand'
  exact hxid.trans (List.le_of_mem_argmax hmem₂ (Option.mem_def.mpr he))

/-- If the leaf that covers the floor has no candidate, there is none at all. -/
private theorem no_candidate_of_covers {oid xid : ℕ} {ls : List Entry}
    (hcov : CoversFloor omapKey (toLex (oid, xid)) ls records)
    (hnone : (ls.map OmapEntry.ofEntry).filter (OmapEntry.Candidate oid xid) = []) :
    ∀ e ∈ records.map OmapEntry.ofEntry, ¬e.Candidate oid xid := by
  rintro _ he hcand
  obtain ⟨r, hr, rfl⟩ := List.mem_map.mp he
  obtain ⟨e, hmem, -⟩ := exists_candidate_of_covers hcov hr hcand
  rw [hnone] at hmem
  simp at hmem

/-- The newest entry is unique, since no two entries of a well-formed tree have equal keys. -/
theorem OmapTree.isNewest_unique (h : OmapTree img blockSize om.treeOid blocks records)
    {oid xid : ℕ} {e e' : OmapEntry} (he : IsNewest oid xid (records.map OmapEntry.ofEntry) e)
    (he' : IsNewest oid xid (records.map OmapEntry.ofEntry) e') : e = e' := by
  obtain ⟨hmem, hcand, hmax⟩ := he
  obtain ⟨hmem', hcand', hmax'⟩ := he'
  have hxid : e.xid = e'.xid := le_antisymm (hmax' e hmem hcand) (hmax e' hmem' hcand')
  have hoid : e.oid = e'.oid := hcand.1.trans hcand'.1.symm
  obtain ⟨r, hr, rfl⟩ := List.mem_map.mp hmem
  obtain ⟨r', hr', rfl⟩ := List.mem_map.mp hmem'
  have hkey : omapKey r = omapKey r' := by
    simp only [OmapEntry.ofEntry] at hoid hxid
    rw [omapKey, omapKey, hoid, hxid]
  -- the leaf entries of a search tree increase strictly, so their keys are distinct
  have hnodup : (records.map omapKey).Nodup :=
    List.pairwise_map.mpr ((h.search.pairwise_records h.unfolds).imp fun hlt => hlt.ne)
  rw [List.inj_on_of_nodup_map hnodup hr hr' hkey]

/-- What a lookup answers, in terms of the leaf it lands on. -/
private theorem resolve_of_findLeaf {oid xid : ℕ} {ls : List Entry}
    (hls : findLeaf img om.treeOid blockSize .omap (omapCmp oid xid) = .ok ls) :
    om.resolve img oid xid blockSize =
      match ((ls.map OmapEntry.ofEntry).filter (OmapEntry.Candidate oid xid)).argmax
        OmapEntry.xid with
      | some e => .ok e
      | none => fail (.omapUnresolved oid xid) := by
  rw [ObjectMap.resolve, hls, ok_bind]
  exact congrArg
    (fun best : Option OmapEntry =>
      match best with
      | some e => (.ok e : Result OmapEntry)
      | none => fail (.omapUnresolved oid xid))
    (foldl_omapVisit oid xid ls)

/-- The lookup succeeds with the newest candidate of the whole tree. -/
theorem OmapTree.resolve_eq_ok_iff (h : OmapTree img blockSize om.treeOid blocks records)
    {oid xid : ℕ} {e : OmapEntry} :
    om.resolve img oid xid blockSize = .ok e ↔
      IsNewest oid xid (records.map OmapEntry.ofEntry) e := by
  obtain ⟨ls, hls, hcov⟩ := h.findLeaf_covers oid xid
  rw [resolve_of_findLeaf hls]
  cases hmax : ((ls.map OmapEntry.ofEntry).filter (OmapEntry.Candidate oid xid)).argmax
      OmapEntry.xid with
  | none =>
    have hno := no_candidate_of_covers hcov (List.argmax_eq_none.mp hmax)
    exact iff_of_false (fail_ne_ok _ _) fun he => hno e he.1 he.2.1
  | some b =>
    have hb := isNewest_of_argmax hcov hmax
    constructor
    · intro hbe
      cases hbe
      exact hb
    · intro he
      rw [h.isNewest_unique hb he]

/-- The lookup fails to resolve exactly when the whole tree holds no candidate. -/
theorem OmapTree.resolve_eq_unresolved_iff
    (h : OmapTree img blockSize om.treeOid blocks records) {oid xid : ℕ} :
    om.resolve img oid xid blockSize = fail (.omapUnresolved oid xid) ↔
      ∀ e ∈ records.map OmapEntry.ofEntry, ¬e.Candidate oid xid := by
  obtain ⟨ls, hls, hcov⟩ := h.findLeaf_covers oid xid
  rw [resolve_of_findLeaf hls]
  cases hmax : ((ls.map OmapEntry.ofEntry).filter (OmapEntry.Candidate oid xid)).argmax
      OmapEntry.xid with
  | none => exact iff_of_true rfl (no_candidate_of_covers hcov (List.argmax_eq_none.mp hmax))
  | some b =>
    have hb := isNewest_of_argmax hcov hmax
    exact iff_of_false (fail_ne_ok _ _).symm fun hno => hno b hb.1 hb.2.1

/-- A lookup in a well-formed tree answers with the newest candidate, or fails to resolve for
lack of one; no other error occurs. -/
theorem OmapTree.resolve_cases (h : OmapTree img blockSize om.treeOid blocks records)
    (oid xid : ℕ) :
    (∃ e, om.resolve img oid xid blockSize = .ok e) ∨
      om.resolve img oid xid blockSize = fail (.omapUnresolved oid xid) := by
  obtain ⟨ls, hls, -⟩ := h.findLeaf_covers oid xid
  rw [resolve_of_findLeaf hls]
  cases ((ls.map OmapEntry.ofEntry).filter (OmapEntry.Candidate oid xid)).argmax
      OmapEntry.xid with
  | none => exact .inr rfl
  | some b => exact .inl ⟨b, rfl⟩

/-- **Keyed lookup agrees with the full scan.** On a well-formed object-map tree none of whose
blocks is shared, the full scan succeeds, the lookup answers with exactly the newest entry it
visits for the object id that is not newer than the transaction, and it reports the id as
unresolved exactly when the scan visits no such entry. -/
theorem resolve_agrees_with_scan (om : ObjectMap) (img : Image) (blockSize : ℕ)
    (blocks : List ℕ) (records : List Entry)
    (h : OmapTree img blockSize om.treeOid blocks records) (hblocks : blocks.Nodup)
    (oid xid : ℕ) :
    forEachLeafEntry img om.treeOid blockSize .omap = .ok records ∧
      (∀ e, om.resolve img oid xid blockSize = .ok e ↔
        IsNewest oid xid (records.map OmapEntry.ofEntry) e) ∧
      (om.resolve img oid xid blockSize = fail (.omapUnresolved oid xid) ↔
        ∀ e ∈ records.map OmapEntry.ofEntry, ¬(e.oid = oid ∧ e.xid ≤ xid)) :=
  ⟨forEachLeafEntry_eq_ok_iff.mpr ⟨blocks, h.unfolds, hblocks⟩,
    fun _ => h.resolve_eq_ok_iff, h.resolve_eq_unresolved_iff⟩

end Resolve

/-! A tree of three nodes whose two leaves hold versions of one object. -/

/-- The leaf with versions 1 and 3 of object 5. -/
private def oldVersions : List Entry :=
  [encodeOmapEntry 5 1 100, encodeOmapEntry 5 3 300]

/-- The leaf with version 7 of object 5. -/
private def newVersions : List Entry :=
  [encodeOmapEntry 5 7 700]

/-- The root above the two leaves, at blocks 1 and 2. -/
private def versionsRoot : List Entry :=
  [⟨leBytes 8 5 ++ leBytes 8 1, leBytes 8 1⟩, ⟨leBytes 8 5 ++ leBytes 8 7, leBytes 8 2⟩]

/-- The three nodes, the root at block 0. -/
def versionsImage : Image where
  bytes := encodeNode 5 1 versionsRoot 160 ++ encodeNode 6 0 oldVersions 160 ++
    encodeNode 6 0 newVersions 160
  length_lt := by decide +kernel

private theorem versions_root :
    fetchNode versionsImage 160 .omap 0 = .ok (.index versionsRoot) := by
  decide +kernel

private theorem versions_left : fetchNode versionsImage 160 .omap 1 = .ok (.leaf oldVersions) := by
  decide +kernel

private theorem versions_right :
    fetchNode versionsImage 160 .omap 2 = .ok (.leaf newVersions) := by
  decide +kernel

/-- What holds of the three nodes holds of every node of the tree. -/
private theorem versions_forall {P : ℕ → ℕ → Node Entry → Prop}
    (h₀ : P 63 0 (.index versionsRoot)) (h₁ : P 62 1 (.leaf oldVersions))
    (h₂ : P 62 2 (.leaf newVersions)) :
    ForallNode (fetchNode versionsImage 160 .omap) (List.map Entry.child) P maxBtreeDepth 0 := by
  refine ForallNode.of_index versions_root h₀ fun c hc => ?_
  have hcs : versionsRoot.map Entry.child = [1, 2] := by decide
  rw [hcs, List.mem_pair] at hc
  rcases hc with rfl | rfl
  · exact ForallNode.of_leaf versions_left h₁
  · exact ForallNode.of_leaf versions_right h₂

private theorem versions_omapTree :
    OmapTree versionsImage 160 0 [0, 1, 2] (oldVersions ++ newVersions) := by
  refine ⟨by decide +kernel, versions_forall ?_ ?_ ?_, versions_forall ?_ ?_ ?_⟩
  · exact exists_buf_of_fetchNode versions_root (by decide)
  · exact exists_buf_of_fetchNode versions_left (by decide)
  · exact exists_buf_of_fetchNode versions_right (by decide)
  · refine ⟨by decide +kernel, ?_, by decide +kernel⟩
    simp only [isLeast_keys_iff]
    decide +kernel
  · show List.Pairwise _ _
    decide +kernel
  · show List.Pairwise _ _
    decide +kernel

/-- At transaction 6 the lookup answers with version 3, the newest one of the first leaf. -/
theorem versions_resolve_at_six :
    (ObjectMap.mk 0 0 0 0).resolve versionsImage 5 6 160 = .ok ⟨5, 3, 300, 0, 0⟩ := by
  obtain ⟨-, hok, -⟩ := resolve_agrees_with_scan ⟨0, 0, 0, 0⟩ versionsImage 160 [0, 1, 2]
    (oldVersions ++ newVersions) versions_omapTree (by decide) 5 6
  refine (hok _).mpr ⟨by decide +kernel, by decide, ?_⟩
  decide +kernel

end ApfsCore
