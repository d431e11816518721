import ApfsCore.General.TreeShape
import ApfsCore.Tree.OmapResolve
import ApfsCore.Tree.PackedNode

/-!
# Trees written to an image

A tree is on an image when each of its nodes is: a block with a valid checksum, laid out by some
legal plan (`NodeOn`). Blocks may lie anywhere, and nothing is asked of what their layouts leave
free. A physical tree on an image is fetched node by node as it was written (`fetchNode_eq`), and a
written object map (`ObjectMapOn`) is one whose lookups are those of its records
(`ObjectMapOn.omapTree`).
-/

namespace ApfsCore

/-! ### Nodes -/

/-- The node a plan writes. -/
def NodePlan.node (p : NodePlan) : Node Entry :=
  if p.header.isLeaf then .leaf (p.placed.map PlacedEntry.entry)
  else .index (p.placed.map PlacedEntry.entry)

/-- The block at a physical address holds a node. -/
def NodeOn (img : Image) (blockSize : ℕ) (subtype : BTreeSubtype) (paddr : ℕ)
    (node : Node Entry) : Prop :=
  ∃ p : NodePlan, p.Legal ∧ p.subtype = subtype ∧ p.node = node ∧
    BlockVerified img blockSize paddr p.block

section Nodes

variable {img : Image} {blockSize paddr : ℕ} {subtype : BTreeSubtype} {node : Node Entry}

/-- The block of a node is verified, and decodes to it. -/
theorem NodeOn.exists_block (h : NodeOn img blockSize subtype paddr node) :
    ∃ buf, BlockVerified img blockSize paddr buf ∧ nodeOf buf subtype = node := by
  obtain ⟨p, hlegal, rfl, rfl, hblock⟩ := h
  exact ⟨p.block, hblock, hlegal.nodeOf_block⟩

theorem NodeOn.fetchNode_eq (hbs : blockSize ≠ 0) (h : NodeOn img blockSize subtype paddr node) :
    fetchNode img blockSize subtype paddr = .ok node := by
  obtain ⟨buf, hbuf, rfl⟩ := h.exists_block
  exact fetchNode_of_verified hbs hbuf subtype

theorem NodeOn.offset_lt (h : NodeOn img blockSize subtype paddr node) :
    paddr * blockSize < 2 ^ 64 := by
  obtain ⟨buf, hbuf, -⟩ := h.exists_block
  by_contra hle
  rw [BlockVerified, Image.block_eq_none_of_le (Nat.not_lt.mp hle)] at hbuf
  cases hbuf.1

/-- A packed block is a node on the image. -/
theorem NodeOn.of_packed {es : List Entry} (flags level : ℕ)
    (hblock : img.block blockSize paddr = some (encodeNode flags level es blockSize))
    (hpack : Packable subtype flags level es blockSize) :
    NodeOn img blockSize subtype paddr
      (if (flags &&& 0x2 != 0) || level == 0 then .leaf es else .index es) := by
  refine ⟨packedPlan subtype flags level es blockSize, packedPlan_legal hpack, rfl, ?_, ?_⟩
  · have hplaced : (packedPlan subtype flags level es blockSize).placed.map PlacedEntry.entry =
        es := map_entry_packedEntries 0 0 es
    rw [NodePlan.node, hplaced]
    rfl
  · rw [block_packedPlan subtype hpack.fits]
    exact ⟨hblock, checksumValid_stamp _⟩

end Nodes

/-! ### Trees -/

/-- A tree whose nodes lie at the block numbers it has for addresses. -/
structure TreeOn {K : Type} (img : Image) (blockSize : ℕ) (subtype : BTreeSubtype)
    (key : Entry → K) (t : Shape ℕ Entry) : Prop where
  nodes : ∀ s : Shape ℕ Entry, s.IsSubtree t → NodeOn img blockSize subtype s.address s.node
  separated : ∀ s : Shape ℕ Entry, s.IsSubtree t → s.Separated key Entry.child
  height : t.height ≤ maxBtreeDepth

section Trees

variable {K : Type} {img : Image} {blockSize : ℕ} {subtype : BTreeSubtype} {key : Entry → K}
  {t : Shape ℕ Entry}

theorem TreeOn.linked (h : TreeOn img blockSize subtype key t) :
    ∀ s : Shape ℕ Entry, s.IsSubtree t → s.Linked (List.map Entry.child) :=
  fun s hs => (h.separated s hs).linked

/-- A tree on an image is walked as it was written. -/
theorem TreeOn.explore_eq (hbs : blockSize ≠ 0) (h : TreeOn img blockSize subtype key t) :
    explore (fetchNode img blockSize subtype) (List.map Entry.child) btreeCycle maxBtreeDepth
      t.address = .ok (t.addresses, t.entries) :=
  Shape.explore_eq (fun s hs => (h.nodes s hs).fetchNode_eq hbs) h.linked h.height

end Trees

/-! ### Object maps -/

/-- An object map is on the image: its header at the block `omapOid`, and its tree. -/
structure ObjectMapOn (img : Image) (blockSize omapOid : ℕ) (t : Shape ℕ Entry) : Prop where
  header : ∃ buf, BlockVerified img blockSize omapOid buf ∧ 56 ≤ buf.length ∧
    leU32 buf 24 &&& 0xffff = objectTypeOmap ∧ leU64 buf 48 = t.address
  tree : TreeOn img blockSize .omap omapKey t
  sorted : t.entries.Pairwise fun e e' => omapKey e < omapKey e'

section ObjectMaps

variable {img : Image} {blockSize omapOid : ℕ} {t : Shape ℕ Entry}

/-- A written header leads to the tree it was written for. -/
theorem exists_header_of_encode {treeOid : ℕ} (hoid : treeOid < 2 ^ 64) (hsize : 56 ≤ blockSize)
    (hblock : img.block blockSize omapOid = some (encodeObjectMap treeOid blockSize)) :
    ∃ buf, BlockVerified img blockSize omapOid buf ∧ 56 ≤ buf.length ∧
      leU32 buf 24 &&& 0xffff = objectTypeOmap ∧ leU64 buf 48 = treeOid := by
  have hbody : ∀ w offset, readLE w (encodeObjectMap treeOid blockSize) (8 + offset) = _ :=
    fun w offset => readLE_stamp w _ offset
  refine ⟨_, ⟨hblock, checksumValid_stamp _⟩, ?_, ?_, ?_⟩
  · rwa [length_encodeObjectMap hsize]
  · have hread := readLE_append_leBytes (w := 4) (n := objectTypeOmap) (a := List.replicate 16 0)
      (b := List.replicate 20 0 ++ (leBytes 8 treeOid ++ List.replicate (blockSize - 56) 0))
      (by decide)
    rw [List.length_replicate] at hread
    simp only [leU32, show 24 = 8 + 16 from rfl, hbody, List.append_assoc, hread]
    decide
  · have hread := readLE_append_leBytes (w := 8) (n := treeOid)
      (a := List.replicate 16 0 ++ leBytes 4 objectTypeOmap ++ List.replicate 20 0)
      (b := List.replicate (blockSize - 56) 0) (hoid.trans_le (by norm_num))
    simp only [List.length_append, List.length_replicate, length_leBytes] at hread
    simp only [leU64, show 48 = 8 + 40 from rfl, hbody, List.append_assoc] at hread ⊢
    exact hread

/-- An object map whose tree is one leaf. -/
theorem ObjectMapOn.of_leaf {treeOid : ℕ} {es : List Entry} (hoid : treeOid < 2 ^ 64)
    (hsize : 56 ≤ blockSize)
    (hblock : img.block blockSize omapOid = some (encodeObjectMap treeOid blockSize))
    (hnode : NodeOn img blockSize .omap treeOid (.leaf es))
    (hsorted : es.Pairwise fun e e' => omapKey e < omapKey e') :
    ObjectMapOn img blockSize omapOid (.leaf treeOid es) := by
  refine ⟨exists_header_of_encode hoid hsize hblock, ⟨?_, ?_, Nat.le_add_left 1 63⟩, hsorted⟩
  · intro s hs
    rw [Shape.isSubtree_leaf] at hs
    rwa [hs]
  · intro s hs
    rw [Shape.isSubtree_leaf] at hs
    subst hs
    rintro _ ⟨⟩

/-- The header of a written object map leads to its tree, which is well formed. -/
theorem ObjectMapOn.omapTree (hbs : blockSize ≠ 0) (h : ObjectMapOn img blockSize omapOid t) :
    ∃ om, readObjectMap img omapOid blockSize = .ok om ∧
      OmapTree img blockSize om.treeOid t.addresses t.entries := by
  obtain ⟨buf, hbuf, hlen, htype, haddress⟩ := h.header
  have hparse := ObjectMap.parse_eq_ok_iff.mpr ⟨hlen, htype, hbuf.2, rfl⟩
  refine ⟨_, (readObjectMap_of_block hbs hbuf.1).trans hparse, ?_⟩
  rw [haddress]
  have hfetch : ∀ s : Shape ℕ Entry, s.IsSubtree t →
      fetchNode img blockSize .omap s.address = .ok s.node :=
    fun s hs => (h.tree.nodes s hs).fetchNode_eq hbs
  refine ⟨h.tree.explore_eq hbs, ?_, ?_⟩
  · exact Shape.forallNode hfetch h.tree.linked
      (fun s hs _ _ => exists_buf_of_fetchNode (hfetch s hs) (h.tree.nodes s hs).offset_lt)
      h.tree.height
  · exact Shape.searchTree hfetch h.tree.separated h.sorted h.tree.height

end ObjectMaps

end ApfsCore
