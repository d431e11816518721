import ApfsCore.General.StoredGraph
import ApfsCore.Volume.KeyedWalk

/-!
# The walk of the file-system tree on an arbitrary image

Nothing is assumed of the image here: the virtual ids stored in it form a graph in which a node
may be shared, lie on a cycle, be missing, or be damaged. The vertices are the ids, and an index
node has an edge to each child that the pruning rule keeps (`nodeAt`).

`FsTreeWalkable` says what of that graph a walk needs: each id that is reached from the root is
reached along one path only, at a depth the cap allows, and its block is found and verified.
The walk succeeds in that case and in no other. It then visits the entries of the leaves that
are reached, from left to right; otherwise it ends with an error of the crate.
-/

namespace ApfsCore

/-- A virtual id names a block at a transaction: the object map resolves it, and the block it
resolves to lies in the image with a valid checksum. -/
def NamesBlock (img : Image) (omap : ObjectMap) (xid blockSize oid : ℕ) (buf : Bytes) : Prop :=
  ∃ entry, omap.resolve img oid xid blockSize = .ok entry ∧
    img.block blockSize entry.paddr = some buf ∧ ChecksumValid buf

/-- The id at a position below the root of the file-system tree. -/
def fsNodeAt (img : Image) (omap : ObjectMap) (v : ApfsVolume) (blockSize : ℕ)
    (target : Option ℕ) (p : List ℕ) : Option ℕ :=
  nodeAt (fetchVirtual img omap v.xid blockSize) (keptChildren target) p v.rootTreeOid

/-- The graph below the root can be walked: no id is reached twice, none deeper than the cap
allows, and each names a block at the volume's transaction. -/
structure FsTreeWalkable (img : Image) (omap : ObjectMap) (v : ApfsVolume) (blockSize : ℕ)
    (target : Option ℕ) : Prop where
  once : ∀ p q oid, fsNodeAt img omap v blockSize target p = some oid →
    fsNodeAt img omap v blockSize target q = some oid → p = q
  depth_le : ∀ p oid, fsNodeAt img omap v blockSize target p = some oid → p.length ≤ 63
  named : ∀ p oid, fsNodeAt img omap v blockSize target p = some oid →
    ∃ buf, NamesBlock img omap v.xid blockSize oid buf

section Graph

variable {img : Image} {omap : ObjectMap} {v : ApfsVolume} {blockSize : ℕ} {target : Option ℕ}

/-- The nodes that are fetched are those of the blocks that ids name. -/
theorem fetchVirtual_eq_ok_iff {xid oid : ℕ} {node : Node Entry} (hbs : blockSize ≠ 0) :
    fetchVirtual img omap xid blockSize oid = .ok node ↔
      ∃ buf, NamesBlock img omap xid blockSize oid buf ∧ nodeOf buf .fsTree = node := by
  rw [fetchVirtual, bind_eq_ok]
  constructor
  · rintro ⟨entry, hentry, h⟩
    obtain ⟨buf, hread, hnode⟩ := bind_eq_ok.mp h
    cases hnode
    obtain ⟨hblock, hsum⟩ := (readVerifiedBlock_eq_ok_iff hbs).mp hread
    exact ⟨buf, ⟨entry, hentry, hblock, hsum⟩, rfl⟩
  · rintro ⟨buf, ⟨entry, hentry, hblock, hsum⟩, rfl⟩
    exact ⟨entry, hentry,
      bind_eq_ok.mpr ⟨buf, (readVerifiedBlock_eq_ok_iff hbs).mpr ⟨hblock, hsum⟩, rfl⟩⟩

/-- What a walk needs of the graph of virtual ids is what it needs of any graph. -/
theorem fsTreeWalkable_iff (hbs : blockSize ≠ 0) :
    FsTreeWalkable img omap v blockSize target ↔
      ReachedOnce (fetchVirtual img omap v.xid blockSize) (keptChildren target) maxFstreeDepth
        v.rootTreeOid := by
  constructor
  · intro h
    refine ⟨fun p oid hp => ?_, fun p oid hp => ?_, h.once⟩
    · obtain ⟨buf, hbuf⟩ := h.named p oid hp
      exact ⟨_, (fetchVirtual_eq_ok_iff hbs).mpr ⟨buf, hbuf, rfl⟩⟩
    · exact Nat.lt_succ_of_le (h.depth_le p oid hp)
  · intro h
    refine ⟨h.once, fun p oid hp => Nat.le_of_lt_succ (h.shallow p oid hp), fun p oid hp => ?_⟩
    obtain ⟨node, hnode⟩ := h.fetched p oid hp
    obtain ⟨buf, hbuf, -⟩ := (fetchVirtual_eq_ok_iff hbs).mp hnode
    exact ⟨buf, hbuf⟩

/-- The walk succeeds when the graph can be walked, and only then. -/
theorem exists_walkFsTree_iff (hbs : blockSize ≠ 0)
    (homap : readObjectMap img v.omapOid blockSize = .ok omap) :
    (∃ rs, walkFsTree img v blockSize target = .ok rs) ↔
      FsTreeWalkable img omap v blockSize target := by
  rw [fsTreeWalkable_iff hbs, ← exists_explore_iff]
  constructor
  · rintro ⟨rs, hrs⟩
    obtain ⟨omap', as, homap', hex, hnodup⟩ := walkFsTree_eq_ok_iff.mp hrs
    rw [homap, Except.ok.injEq] at homap'
    subst homap'
    exact ⟨as, rs, hex, hnodup⟩
  · rintro ⟨as, rs, hex, hnodup⟩
    exact ⟨rs, walkFsTree_eq_ok_iff.mpr ⟨omap, as, homap, hex, hnodup⟩⟩

end Graph

/-- **The walk of an arbitrary graph.** It succeeds exactly when no id is reached twice, none
deeper than the cap, and each names a verified block; it visits the entries of the leaves that
are reached, from left to right, each leaf once. In every other case it ends with an error. -/
theorem walkFsTree_on_graph (img : Image) (v : ApfsVolume) (blockSize : ℕ) (target : Option ℕ)
    (omap : ObjectMap) (hbs : blockSize ≠ 0)
    (homap : readObjectMap img v.omapOid blockSize = .ok omap) :
    ((∃ rs, walkFsTree img v blockSize target = .ok rs) ↔
      FsTreeWalkable img omap v blockSize target) ∧
    (∀ rs, walkFsTree img v blockSize target = .ok rs →
      LeavesInOrder (fetchVirtual img omap v.xid blockSize) (keptChildren target) v.rootTreeOid
        rs) ∧
    (¬FsTreeWalkable img omap v blockSize target →
      ∃ e, walkFsTree img v blockSize target = fail e) := by
  have hiff := @exists_walkFsTree_iff img omap v blockSize target hbs homap
  refine ⟨hiff, fun rs hrs => ?_, fun hnot => ?_⟩
  · obtain ⟨omap', as, homap', hex, -⟩ := walkFsTree_eq_ok_iff.mp hrs
    rw [homap, Except.ok.injEq] at homap'
    subst homap'
    exact leavesInOrder_of_explore hex
  · cases hwalk : walkFsTree img v blockSize target with
    | ok rs => exact absurd (hiff.mp ⟨rs, hwalk⟩) hnot
    | error f =>
      obtain ⟨e, rfl⟩ := named_walkFsTree img v blockSize target f hwalk
      exact ⟨e, rfl⟩

/-- The tree of two leaves can be walked: its entries are those of both. -/
theorem spill_walked :
    FsTreeWalkable spillImage ⟨0, 0, 1, 0⟩ spillVolume 208 none ∧
      ∃ rs, walkFsTree spillImage spillVolume 208 none = .ok rs ∧ rs.length = 4 := by
  have hom : readObjectMap spillImage spillVolume.omapOid 208 = .ok ⟨0, 0, 1, 0⟩ := by
    decide +kernel
  have hwalk : (walkFsTree spillImage spillVolume 208 none).map List.length = .ok 4 := by
    decide +kernel
  obtain ⟨rs, hrs, hlen⟩ := map_eq_ok.mp hwalk
  have hgraph := walkFsTree_on_graph spillImage spillVolume 208 none ⟨0, 0, 1, 0⟩ (by decide) hom
  exact ⟨hgraph.1.mp ⟨rs, hrs⟩, rs, hrs, hlen⟩

end ApfsCore
