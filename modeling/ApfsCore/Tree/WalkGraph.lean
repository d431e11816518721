import ApfsCore.General.StoredGraph
import ApfsCore.Tree.Btree

/-!
# What a walk of a physically stored tree leaves out

The blocks of an image that lie in it with a valid checksum are the nodes of a graph
(`storedNode`), in which the children of an index node are the block numbers decoded from it.
A walk that succeeds should have read every child of every index node it expanded, and have
visited the entries of all leaves that are reached, from left to right (`WalkComplete`).

The walk passes over a block number whose byte offset leaves the range of `u64`, without an
error. Such a number is the only thing that a successful walk can miss: it is complete when no
child it reaches has one, and in no other case.
-/

namespace ApfsCore

/-- The node stored at a block number, when the block is verified. -/
def storedNode (img : Image) (blockSize : ℕ) (subtype : BTreeSubtype) (paddr : ℕ) :
    Result (Node Entry) :=
  match img.block blockSize paddr with
  | none => fail .io
  | some buf => (fun buf => nodeOf buf subtype) <$> verified paddr buf

/-- The block number at a position below the root of a tree, in the graph of verified blocks. -/
def blockAt (img : Image) (root blockSize : ℕ) (subtype : BTreeSubtype) (p : List ℕ) :
    Option ℕ :=
  nodeAt (storedNode img blockSize subtype) (List.map Entry.child) p root

/-- Nothing is missing from what a walk visited: every child number of every index node that is
reached was read and verified, and the entries visited are those of the leaves that are reached,
from left to right. -/
structure WalkComplete (img : Image) (root blockSize : ℕ) (subtype : BTreeSubtype)
    (rs : List Entry) : Prop where
  children : ∀ i p paddr, blockAt img root blockSize subtype (i :: p) = some paddr →
    ∃ buf, BlockVerified img blockSize paddr buf
  leaves : LeavesInOrder (storedNode img blockSize subtype) (List.map Entry.child) root rs

/-- The byte offset of every child number that is reached is in the range of `u64`. -/
def ChildrenAddressable (img : Image) (root blockSize : ℕ) (subtype : BTreeSubtype) : Prop :=
  ∀ i p paddr, blockAt img root blockSize subtype (i :: p) = some paddr →
    paddr * blockSize < 2 ^ 64

section Walk

variable {img : Image} {root blockSize : ℕ} {subtype : BTreeSubtype}

theorem storedNode_eq_ok_iff {paddr : ℕ} {node : Node Entry} :
    storedNode img blockSize subtype paddr = .ok node ↔
      ∃ buf, BlockVerified img blockSize paddr buf ∧ nodeOf buf subtype = node := by
  rw [storedNode]
  constructor
  · intro h
    cases hblock : img.block blockSize paddr with
    | none =>
      rw [hblock] at h
      exact absurd h (fail_ne_ok _ _)
    | some read =>
      rw [hblock] at h
      obtain ⟨buf, hverified, hnode⟩ := map_eq_ok.mp h
      rw [verified] at hverified
      split_ifs at hverified with hsum
      · cases hverified
        exact ⟨_, ⟨hblock, hsum⟩, hnode⟩
      · exact absurd hverified (fail_ne_ok _ _)
  · rintro ⟨buf, ⟨hblock, hsum⟩, rfl⟩
    rw [hblock]
    simp only [verified, if_pos hsum, map_ok]

/-- The nodes that are fetched are those stored and, for the numbers that cannot be addressed,
leaves without entries. -/
theorem fetchNode_eq_ok_iff {paddr : ℕ} {node : Node Entry} (hbs : blockSize ≠ 0) :
    fetchNode img blockSize subtype paddr = .ok node ↔
      storedNode img blockSize subtype paddr = .ok node ∨
        2 ^ 64 ≤ paddr * blockSize ∧ node = .leaf [] := by
  by_cases hoff : paddr * blockSize < 2 ^ 64
  · have hfetch : fetchNode img blockSize subtype paddr =
        storedNode img blockSize subtype paddr := by
      simp only [fetchNode, readVerifiedNode, checkedMul, if_pos hoff, storedNode]
      rw [← saturatingMul_of_lt hoff, Image.readExact_saturatingMul img hbs]
      cases img.block blockSize paddr with
      | none => rfl
      | some buf =>
        simp only [ok_bind]
        cases verified paddr buf with
        | error e => rfl
        | ok buf => rfl
    rw [hfetch]
    exact ⟨.inl, fun h => h.resolve_right fun h' => absurd hoff (Nat.not_lt.mpr h'.1)⟩
  · have hnone : img.block blockSize paddr = none :=
      Image.block_eq_none_of_le (Nat.not_lt.mp hoff)
    have hstored : storedNode img blockSize subtype paddr = fail .io := by
      rw [storedNode, hnone]
    have hfetch : fetchNode img blockSize subtype paddr = .ok (.leaf []) := by
      simp only [fetchNode, readVerifiedNode, checkedMul, if_neg hoff, ok_bind]
    rw [hfetch, hstored, Except.ok.injEq]
    constructor
    · rintro rfl
      exact .inr ⟨Nat.not_lt.mp hoff, rfl⟩
    · rintro (h | ⟨-, rfl⟩)
      · exact absurd h (fail_ne_ok _ _)
      · rfl

/-- The numbers that cannot be addressed add no index node. -/
private theorem fetchNode_index_iff (hbs : blockSize ≠ 0) (paddr : ℕ) (es : List Entry) :
    fetchNode img blockSize subtype paddr = .ok (.index es) ↔
      storedNode img blockSize subtype paddr = .ok (.index es) := by
  rw [fetchNode_eq_ok_iff hbs]
  refine ⟨fun h => h.resolve_right fun h' => ?_, .inl⟩
  cases h'.2

/-- Every block that a successful walk reaches is verified or cannot be addressed. -/
private theorem verified_of_walk {rs : List Entry} {p : List ℕ} {paddr : ℕ} (hbs : blockSize ≠ 0)
    (h : forEachLeafEntry img root blockSize subtype = .ok rs)
    (hp : blockAt img root blockSize subtype p = some paddr) :
    (∃ buf, BlockVerified img blockSize paddr buf) ∨ 2 ^ 64 ≤ paddr * blockSize := by
  obtain ⟨as, hex, hnodup⟩ := forEachLeafEntry_eq_ok_iff.mp h
  have hreached := exists_explore_iff.mp ⟨as, rs, hex, hnodup⟩
  rw [blockAt, ← nodeAt_congr (fetchNode_index_iff hbs)] at hp
  obtain ⟨node, hnode⟩ := hreached.fetched p paddr hp
  rcases (fetchNode_eq_ok_iff hbs).mp hnode with hstored | ⟨hoff, -⟩
  · obtain ⟨buf, hbuf, -⟩ := storedNode_eq_ok_iff.mp hstored
    exact .inl ⟨buf, hbuf⟩
  · exact .inr hoff

/-- What a successful walk visits are the entries of the leaves reached. -/
theorem leavesInOrder_of_forEachLeafEntry {rs : List Entry} (hbs : blockSize ≠ 0)
    (h : forEachLeafEntry img root blockSize subtype = .ok rs) :
    LeavesInOrder (storedNode img blockSize subtype) (List.map Entry.child) root rs := by
  obtain ⟨as, hex, -⟩ := forEachLeafEntry_eq_ok_iff.mp h
  refine (leavesInOrder_of_explore hex).congr (fetchNode_index_iff hbs) (fun x es hes => ?_)
    fun x es hes => (fetchNode_eq_ok_iff hbs).mpr (.inl hes)
  rcases (fetchNode_eq_ok_iff hbs).mp hes with hstored | ⟨-, hempty⟩
  · exact .inl hstored
  · cases hempty
    exact .inr rfl

/-- **A successful walk is complete exactly when it reaches no child that cannot be
addressed.** -/
theorem walkComplete_iff {rs : List Entry} (hbs : blockSize ≠ 0)
    (h : forEachLeafEntry img root blockSize subtype = .ok rs) :
    WalkComplete img root blockSize subtype rs ↔
      ChildrenAddressable img root blockSize subtype := by
  constructor
  · intro hcomplete i p paddr hp
    obtain ⟨buf, hblock, -⟩ := hcomplete.children i p paddr hp
    by_contra hoff
    rw [Image.block_eq_none_of_le (Nat.not_lt.mp hoff)] at hblock
    cases hblock
  · intro haddr
    refine ⟨fun i p paddr hp => ?_, leavesInOrder_of_forEachLeafEntry hbs h⟩
    exact (verified_of_walk hbs h hp).resolve_right (Nat.not_le.mpr (haddr i p paddr hp))

end Walk

/-! Two trees of one index node: the child of the first is a leaf, the child of the second cannot
be addressed. -/

/-- The records of the leaf. -/
private def soleRecords : List Entry :=
  [⟨leBytes 8 3, leBytes 8 5⟩]

/-- The records of an index node with the given child. -/
private def soleChild (child : ℕ) : List Entry :=
  [⟨leBytes 8 3, leBytes 8 child⟩]

/-- An index node at block 0 and its leaf at block 1. -/
def twoLevelImage : Image :=
  ⟨encodeNode 1 1 (soleChild 1) 208 ++ encodeNode 2 0 soleRecords 208, by decide +kernel⟩

/-- An index node whose child would start at byte `2 ^ 64`. -/
def lostChildImage : Image :=
  ⟨encodeNode 1 1 (soleChild (2 ^ 52)) 4096, by decide +kernel⟩

/-- The walk of the first tree visits the record of its leaf. -/
theorem two_level_complete :
    ∃ rs, forEachLeafEntry twoLevelImage 0 208 .fsTree = .ok rs ∧ rs.length = 1 ∧
      WalkComplete twoLevelImage 0 208 .fsTree rs := by
  have hroot : storedNode twoLevelImage 208 .fsTree 0 = .ok (.index (soleChild 1)) := by
    decide +kernel
  have hleaf : storedNode twoLevelImage 208 .fsTree 1 = .ok (.leaf soleRecords) := by
    decide +kernel
  have hwalk : (forEachLeafEntry twoLevelImage 0 208 .fsTree).map List.length = .ok 1 := by
    decide +kernel
  obtain ⟨rs, hrs, hlen⟩ := map_eq_ok.mp hwalk
  refine ⟨rs, hrs, hlen, (walkComplete_iff (by decide) hrs).mpr fun i p paddr hp => ?_⟩
  obtain ⟨es, c, hes, hc, hp⟩ := nodeAt_cons_eq_some_iff.mp hp
  rw [hroot, Except.ok.injEq, Node.index.injEq] at hes
  subst hes
  -- the only child is block 1, below which there is nothing
  have hchild : c = 1 := by
    have hmem := List.mem_of_getElem? hc
    have hchildren : (soleChild 1).map Entry.child = [1] := by decide
    rwa [hchildren, List.mem_singleton] at hmem
  subst hchild
  obtain ⟨-, rfl⟩ := nodeAt_of_leaf hleaf hp
  decide

/-- The walk of the second tree succeeds without having read the child. -/
theorem lost_child_walk :
    forEachLeafEntry lostChildImage 0 4096 .fsTree = .ok [] ∧
      ¬WalkComplete lostChildImage 0 4096 .fsTree [] := by
  have hblock : BlockVerified lostChildImage 4096 0 (encodeNode 1 1 (soleChild (2 ^ 52)) 4096) :=
    ⟨Image.block_of_flatten (List.append_nil _).symm
      (List.forall_mem_singleton.mpr (length_encodeNode (by decide))) rfl, checksumValid_stamp _⟩
  have hnode : nodeOf (encodeNode 1 1 (soleChild (2 ^ 52)) 4096) .fsTree =
      .index (soleChild (2 ^ 52)) := by decide +kernel
  have hroot : storedNode lostChildImage 4096 .fsTree 0 = .ok (.index (soleChild (2 ^ 52))) :=
    storedNode_eq_ok_iff.mpr ⟨_, hblock, hnode⟩
  constructor
  · have hfetch : fetchNode lostChildImage 4096 .fsTree 0 = .ok (.index (soleChild (2 ^ 52))) := by
      rw [fetchNode_of_verified (by decide) hblock, hnode]
    have hlost : fetchNode lostChildImage 4096 .fsTree (2 ^ 52) = .ok (.leaf []) :=
      (fetchNode_eq_ok_iff (by decide)).mpr (.inr ⟨by decide, rfl⟩)
    refine forEachLeafEntry_eq_ok_iff.mpr ⟨[0, 2 ^ 52], ?_, by decide⟩
    refine explore_succ_eq_ok.mpr (.inr ⟨_, [([2 ^ 52], [])], hfetch, ?_, rfl, rfl⟩)
    exact .cons (explore_succ_eq_ok.mpr (.inl ⟨hlost, rfl⟩)) .nil
  · intro h
    have hchild : blockAt lostChildImage 0 4096 .fsTree [0] = some (2 ^ 52) :=
      nodeAt_cons_eq_some_iff.mpr ⟨_, _, hroot, by decide, rfl⟩
    obtain ⟨buf, hread, -⟩ := h.children 0 [] _ hchild
    rw [Image.block_eq_none_of_le (by decide)] at hread
    cases hread

end ApfsCore
