import ApfsCore.General.Overlay
import ApfsCore.Tree.Btree

/-!
# Nodes, written and read back

A node may be written in many ways: the table of contents anywhere behind the header and with
slack, the keys anywhere behind the table, the values anywhere below the value base. A `NodePlan`
is one such way, `NodePlan.block` the block it gives, over whatever the block held before, and
`NodePlan.Legal` says that the pieces lie inside the block, do not overlap, and have offsets and
lengths that fit their fields. From a legal block `node_entries` reads every entry, in order.
-/

namespace ApfsCore

/-- An entry with the offsets its key and value are stored at. -/
structure PlacedEntry where
  entry : Entry
  koff : ℕ
  voff : ℕ

/-- A way to write a node over a block. -/
structure NodePlan where
  subtype : BTreeSubtype
  flags : ℕ
  level : ℕ
  tocOff : ℕ
  tocLen : ℕ
  placed : List PlacedEntry
  background : Bytes

namespace NodePlan

variable (p : NodePlan)

/-- The header of the node. -/
def header : BTreeNodeHeader where
  flags := p.flags
  level := p.level
  nkeys := p.placed.length

/-- Where the table of contents starts. -/
def tocStart : ℕ :=
  56 + p.tocOff

/-- Where the key area starts. -/
def keyArea : ℕ :=
  p.tocStart + p.tocLen

/-- Where values are counted back from: the footer of a root, else the end of the block. -/
def valBase : ℕ :=
  if p.header.isRoot then p.background.length - 40 else p.background.length

/-- The TOC slot of an entry: `kvoff_t` or `kvloc_t`. -/
def slot (e : PlacedEntry) : Bytes :=
  if p.header.isFixedKv then leBytes 2 e.koff ++ leBytes 2 e.voff
  else leBytes 2 e.koff ++ leBytes 2 e.entry.key.length ++ leBytes 2 e.voff ++
    leBytes 2 e.entry.value.length

/-- The length of a TOC slot. -/
def slotLen : ℕ :=
  if p.header.isFixedKv then 4 else 8

/-- The header fields from `btn_flags` to the length of the TOC. -/
def headerPiece : ℕ × Bytes :=
  (32, leBytes 2 p.flags ++ leBytes 2 p.level ++ leBytes 4 p.placed.length ++
    leBytes 2 p.tocOff ++ leBytes 2 p.tocLen)

/-- The table of contents. -/
def tocPiece : ℕ × Bytes :=
  (p.tocStart, p.placed.flatMap p.slot)

/-- The key of an entry, counted forward from the key area. -/
def keyPiece (e : PlacedEntry) : ℕ × Bytes :=
  (p.keyArea + e.koff, e.entry.key)

/-- The value of an entry, counted backward from the value base. -/
def valuePiece (e : PlacedEntry) : ℕ × Bytes :=
  (p.valBase - e.voff, e.entry.value)

/-- The pieces of the block, in the order they are written. -/
def pieces : List (ℕ × Bytes) :=
  p.headerPiece :: p.tocPiece :: (p.placed.map p.keyPiece ++ p.placed.map p.valuePiece)

/-- The block the plan gives. -/
def block : Bytes :=
  writeAll p.background p.pieces

/-- The key and value lengths a node can store: those its subtype and level fix, or any that
fit a TOC slot. -/
def LengthsOk (e : PlacedEntry) : Prop :=
  if p.header.isFixedKv then
    p.subtype = .omap ∧ e.entry.key.length = 16 ∧
      e.entry.value.length = if p.header.isLeaf then 16 else 8
  else e.entry.key.length ≤ 65535 ∧ e.entry.value.length ≤ 65535

/-- A plan whose fields hold their values and whose pieces keep clear of one another. Nothing is
asked of the footer, which `node_entries` does not read: plans that keep clear of it too are
among these. -/
structure Legal : Prop where
  length : 56 ≤ p.background.length
  flags_lt : p.flags < 65536
  level_lt : p.level < 65536
  tocOff_lt : p.tocOff < 65536
  tocLen_lt : p.tocLen < 65536
  toc_fits : p.placed.length * p.slotLen ≤ p.tocLen
  keyArea_le : p.keyArea ≤ p.background.length
  koff_lt : ∀ e ∈ p.placed, e.koff < 65536
  voff_lt : ∀ e ∈ p.placed, e.voff < 65536
  lengths : ∀ e ∈ p.placed, p.LengthsOk e
  key_in : ∀ e ∈ p.placed, p.keyArea + e.koff + e.entry.key.length ≤ p.background.length
  value_in : ∀ e ∈ p.placed, e.entry.value.length ≤ e.voff ∧ e.voff ≤ p.valBase
  value_header : ∀ e ∈ p.placed, Disjoint (Set.Ico 0 56) (pieceSpan (p.valuePiece e))
  value_toc : ∀ e ∈ p.placed,
    Disjoint (Set.Ico p.tocStart p.keyArea) (pieceSpan (p.valuePiece e))
  keys_apart : p.placed.Pairwise fun d e =>
    Disjoint (pieceSpan (p.keyPiece d)) (pieceSpan (p.keyPiece e))
  values_apart : p.placed.Pairwise fun d e =>
    Disjoint (pieceSpan (p.valuePiece d)) (pieceSpan (p.valuePiece e))
  key_value_apart : ∀ d ∈ p.placed, ∀ e ∈ p.placed,
    Disjoint (pieceSpan (p.keyPiece d)) (pieceSpan (p.valuePiece e))

/-! ### The pieces keep apart -/

section Pieces

variable {p}

theorem length_slot (e : PlacedEntry) : (p.slot e).length = p.slotLen := by
  rw [slot, slotLen]
  split_ifs <;> simp only [List.length_append, length_leBytes]

theorem length_toc (es : List PlacedEntry) :
    (es.flatMap p.slot).length = es.length * p.slotLen := by
  induction es with
  | nil => exact (Nat.zero_mul _).symm
  | cons e es ih =>
    rw [List.flatMap_cons, List.length_append, length_slot, ih, List.length_cons]
    ring

theorem length_headerPiece : p.headerPiece.2.length = 12 := by
  simp only [headerPiece, List.length_append, length_leBytes]

theorem Legal.toc_end_le (h : p.Legal) : p.tocStart + p.tocPiece.2.length ≤ p.keyArea := by
  rw [tocPiece, length_toc, keyArea]
  exact Nat.add_le_add_left h.toc_fits _

theorem Legal.pieces_fit (h : p.Legal) :
    ∀ piece ∈ p.pieces, piece.1 + piece.2.length ≤ p.background.length := by
  have hkeyArea := h.keyArea_le
  have hlen := h.length
  intro piece hpiece
  rw [pieces, List.mem_cons, List.mem_cons, List.mem_append, List.mem_map, List.mem_map] at hpiece
  rcases hpiece with rfl | rfl | ⟨e, he, rfl⟩ | ⟨e, he, rfl⟩
  · rw [length_headerPiece, headerPiece]
    omega
  · exact h.toc_end_le.trans hkeyArea
  · exact h.key_in e he
  · obtain ⟨hle, hbase⟩ := h.value_in e he
    have hval : p.valBase ≤ p.background.length := by
      rw [valBase]
      split_ifs <;> omega
    dsimp only [valuePiece]
    omega

theorem Legal.pieces_apart (h : p.Legal) :
    p.pieces.Pairwise fun a b => Disjoint (pieceSpan a) (pieceSpan b) := by
  have htoc := h.toc_end_le
  have hstart : 56 ≤ p.tocStart := Nat.le_add_right _ _
  have hheader : pieceSpan p.headerPiece = Set.Ico 32 44 := by
    rw [pieceSpan, length_headerPiece]
    rfl
  have htocSpan : pieceSpan p.tocPiece ⊆ Set.Ico p.tocStart p.keyArea :=
    Set.Ico_subset_Ico le_rfl htoc
  have hkeyArea : p.tocStart ≤ p.keyArea := Nat.le_add_right _ _
  have hkeys : ∀ e, pieceSpan (p.keyPiece e) =
      Set.Ico (p.keyArea + e.koff) (p.keyArea + e.koff + e.entry.key.length) :=
    fun _ => rfl
  rw [pieces, List.pairwise_cons, List.pairwise_cons, List.pairwise_append]
  refine ⟨?_, ?_, ?_, ?_, ?_⟩
  · -- the header lies before the TOC and the keys, and no value is in it
    intro piece hpiece
    rw [List.mem_cons, List.mem_append, List.mem_map, List.mem_map] at hpiece
    rw [hheader]
    rcases hpiece with rfl | ⟨e, he, rfl⟩ | ⟨e, he, rfl⟩
    · exact disjoint_Ico_of_le (show 44 ≤ p.tocStart by omega)
    · rw [hkeys]
      exact disjoint_Ico_of_le (by omega)
    · exact (h.value_header e he).mono_left (Set.Ico_subset_Ico (by omega) (by omega))
  · intro piece hpiece
    rw [List.mem_append, List.mem_map, List.mem_map] at hpiece
    rcases hpiece with ⟨e, he, rfl⟩ | ⟨e, he, rfl⟩
    · rw [hkeys]
      exact (disjoint_Ico_of_le (by omega)).mono_left htocSpan
    · exact (h.value_toc e he).mono_left htocSpan
  · exact List.pairwise_map.mpr h.keys_apart
  · exact List.pairwise_map.mpr h.values_apart
  · intro a ha b hb
    obtain ⟨d, hd, rfl⟩ := List.mem_map.mp ha
    obtain ⟨e, he, rfl⟩ := List.mem_map.mp hb
    exact h.key_value_apart d hd e he

/-- Each piece is read back from its place. -/
theorem Legal.slice_block (h : p.Legal) {piece : ℕ × Bytes} (hpiece : piece ∈ p.pieces) :
    slice p.block piece.1 (piece.1 + piece.2.length) = some piece.2 :=
  slice_writeAll h.pieces_fit h.pieces_apart hpiece

theorem Legal.length_block (h : p.Legal) : p.block.length = p.background.length :=
  length_writeAll h.pieces_fit

end Pieces

/-! ### The decoder on a legal block -/

section Decode

variable {p}

/-- A field whose bytes are those of a number that fits is that number. -/
private theorem readLE_eq_of_leNat {w offset n : ℕ} {data : Bytes}
    (hread : readLE w data offset = leNat (leBytes w n)) (hn : n < 256 ^ w) :
    readLE w data offset = n :=
  hread.trans (leNat_leBytes_of_lt hn)

/-- The fields of the header, as they are read. -/
theorem Legal.header_fields (h : p.Legal) :
    leU16 p.block 32 = p.flags ∧ leU16 p.block 34 = p.level ∧
      leU32 p.block 36 = p.placed.length ∧ leU16 p.block 40 = p.tocOff ∧
        leU16 p.block 42 = p.tocLen := by
  have hpiece : p.headerPiece ∈ p.pieces := List.mem_cons_self
  have hslice : slice p.block 32 (32 + p.headerPiece.2.length) = some p.headerPiece.2 :=
    h.slice_block hpiece
  rw [length_headerPiece] at hslice
  have hcount : p.placed.length < 256 ^ 4 := by
    have hfits := h.toc_fits
    have hlen := h.tocLen_lt
    have hslot : p.placed.length * 4 ≤ p.placed.length * p.slotLen := by
      refine Nat.mul_le_mul_left _ ?_
      rw [slotLen]
      split_ifs <;> norm_num
    omega
  have hfield : ∀ w offset n, offset + w ≤ 12 →
      readLE w p.headerPiece.2 offset = leNat (leBytes w n) → n < 256 ^ w →
        readLE w p.block (32 + offset) = n := by
    intro w offset n hin hread hlt
    exact (readLE_of_slice hslice (by omega)).trans (readLE_eq_of_leNat hread hlt)
  exact ⟨hfield 2 0 _ (by norm_num) rfl h.flags_lt, hfield 2 2 _ (by norm_num) rfl h.level_lt,
    hfield 4 4 _ (by norm_num) rfl hcount, hfield 2 8 _ (by norm_num) rfl h.tocOff_lt,
    hfield 2 10 _ (by norm_num) rfl h.tocLen_lt⟩

theorem Legal.parseNodeHeader_block (h : p.Legal) : parseNodeHeader p.block = some p.header := by
  obtain ⟨hflags, hlevel, hcount, -, -⟩ := h.header_fields
  rw [parseNodeHeader, if_neg (by rw [h.length_block]; exact Nat.not_lt.mpr h.length), hflags,
    hlevel, hcount]
  rfl

/-- The geometry the decoder derives is that of the plan. -/
theorem Legal.nodeLayout_block (h : p.Legal) :
    nodeLayout p.block p.subtype p.header =
      { tocStart := p.tocStart
        keyArea := p.keyArea
        valBase := p.valBase
        fixed := p.header.isFixedKv
        keyLen := p.subtype.fixedKeyLen
        valLen := if p.header.isLeaf then p.subtype.fixedLeafValLen
          else p.subtype.fixedBranchValLen } := by
  obtain ⟨-, -, -, htocOff, htocLen⟩ := h.header_fields
  unfold nodeLayout
  rw [htocOff, htocLen, h.length_block]
  rfl

/-- The fields of a TOC slot, in a block that holds it at `e`. -/
theorem readLE_slot {block after : Bytes} {front : Bytes} {start e : ℕ} {d : PlacedEntry}
    (hblock : slice block start (start + (front ++ (p.slot d ++ after)).length) =
      some (front ++ (p.slot d ++ after)))
    (he : e = start + front.length) {w offset : ℕ} (hin : offset + w ≤ p.slotLen) :
    readLE w block (e + offset) = readLE w (p.slot d) offset := by
  have hslot := length_slot (p := p) d
  rw [he, Nat.add_assoc, readLE_of_slice hblock (by simp only [List.length_append]; omega),
    readLE_append_right, readLE_append_left (by omega)]

/-- The two-byte fields of a slot of fixed-size entries. -/
private theorem slot_fields_fixed (hfixed : p.header.isFixedKv = true) {d : PlacedEntry}
    (hkoff : d.koff < 65536) (hvoff : d.voff < 65536) :
    readLE 2 (p.slot d) 0 = d.koff ∧ readLE 2 (p.slot d) 2 = d.voff := by
  rw [slot, if_pos hfixed]
  exact ⟨readLE_eq_of_leNat rfl hkoff, readLE_eq_of_leNat rfl hvoff⟩

/-- The two-byte fields of a slot of entries of any size. -/
private theorem slot_fields_var (hfixed : ¬p.header.isFixedKv = true) {d : PlacedEntry}
    (hkoff : d.koff < 65536) (hvoff : d.voff < 65536) (hkey : d.entry.key.length ≤ 65535)
    (hvalue : d.entry.value.length ≤ 65535) :
    readLE 2 (p.slot d) 0 = d.koff ∧ readLE 2 (p.slot d) 2 = d.entry.key.length ∧
      readLE 2 (p.slot d) 4 = d.voff ∧ readLE 2 (p.slot d) 6 = d.entry.value.length := by
  rw [slot, if_neg hfixed]
  exact ⟨readLE_eq_of_leNat rfl hkoff, readLE_eq_of_leNat rfl (Nat.lt_succ_of_le hkey),
    readLE_eq_of_leNat rfl hvoff, readLE_eq_of_leNat rfl (Nat.lt_succ_of_le hvalue)⟩

/-- The offsets and lengths that the decoder takes from a slot at `e`: those of the entry, be they
stored in the slot or fixed by the subtype and the level. -/
private theorem Legal.slot_fields (h : p.Legal) {d : PlacedEntry} (hd : d ∈ p.placed) {e : ℕ}
    (hread : ∀ offset, offset + 2 ≤ p.slotLen →
      leU16 p.block (e + offset) = readLE 2 (p.slot d) offset) :
    leU16 p.block e = d.koff ∧
      (if p.header.isFixedKv then leU16 p.block (e + 2) else leU16 p.block (e + 4)) = d.voff ∧
      (if p.header.isFixedKv then p.subtype.fixedKeyLen else leU16 p.block (e + 2)) =
        d.entry.key.length ∧
      (if p.header.isFixedKv then
        if p.header.isLeaf then p.subtype.fixedLeafValLen else p.subtype.fixedBranchValLen
        else leU16 p.block (e + 6)) = d.entry.value.length := by
  have hkoff := h.koff_lt d hd
  have hvoff := h.voff_lt d hd
  have hlengths := h.lengths d hd
  rw [LengthsOk] at hlengths
  by_cases hfixed : p.header.isFixedKv = true
  · have hslotLen : p.slotLen = 4 := if_pos hfixed
    rw [if_pos hfixed] at hlengths
    obtain ⟨hsubtype, hkeyLen, hvalLen⟩ := hlengths
    obtain ⟨hk, hv⟩ := slot_fields_fixed hfixed hkoff hvoff
    simp only [if_pos hfixed]
    refine ⟨(hread 0 (by omega)).trans hk, (hread 2 (by omega)).trans hv, ?_, ?_⟩
    · rw [hsubtype, hkeyLen]
      rfl
    · rw [hsubtype, hvalLen]
      rfl
  · have hslotLen : p.slotLen = 8 := if_neg hfixed
    rw [if_neg hfixed] at hlengths
    obtain ⟨hk, hkl, hv, hvl⟩ := slot_fields_var hfixed hkoff hvoff hlengths.1 hlengths.2
    simp only [if_neg hfixed]
    exact ⟨(hread 0 (by omega)).trans hk, (hread 4 (by omega)).trans hv,
      (hread 2 (by omega)).trans hkl, (hread 6 (by omega)).trans hvl⟩

/-- **A slot of a legal node leads to its entry.** -/
theorem Legal.tocSlot_block (h : p.Legal) {front after : Bytes} {d : PlacedEntry} {i : ℕ}
    (htoc : p.tocPiece.2 = front ++ (p.slot d ++ after)) (hfront : front.length = i * p.slotLen)
    (hd : d ∈ p.placed) :
    tocSlot p.block (nodeLayout p.block p.subtype p.header) i = .entry d.entry := by
  have hpiece : p.tocPiece ∈ p.pieces := List.mem_cons_of_mem _ List.mem_cons_self
  have hslice := h.slice_block hpiece
  have hend := h.toc_end_le
  rw [htoc] at hslice hend
  obtain ⟨hk, hv, hkl, hvl⟩ := h.slot_fields (e := p.tocStart + i * p.slotLen) hd fun offset hin =>
    readLE_slot hslice (by rw [← hfront]; rfl) hin
  have hin : p.tocStart + i * p.slotLen + p.slotLen ≤ p.keyArea := by
    rw [← hfront]
    simp only [List.length_append, length_slot] at hend
    omega
  have hinBlock := hin.trans h.keyArea_le
  have hkey : slice p.block (p.keyArea + d.koff) (p.keyArea + d.koff + d.entry.key.length) =
      some d.entry.key :=
    h.slice_block (List.mem_cons_of_mem _ (List.mem_cons_of_mem _
      (List.mem_append_left _ (List.mem_map_of_mem hd))))
  have hvalue : slice p.block (p.valBase - d.voff)
      (p.valBase - d.voff + d.entry.value.length) = some d.entry.value :=
    h.slice_block (List.mem_cons_of_mem _ (List.mem_cons_of_mem _
      (List.mem_append_right _ (List.mem_map_of_mem hd))))
  have hslotLen : (if p.header.isFixedKv then 4 else 8) = p.slotLen := rfl
  rw [h.nodeLayout_block, tocSlot]
  simp only [NodeLayout.entryLen, hslotLen, hk, hv, hkl, hvl, hkey, hvalue]
  rw [if_neg (by rw [h.length_block]; omega), if_neg (Nat.not_lt.mpr (h.value_in d hd).2)]

/-- The scan of a legal table of contents, from any slot on, returns the entries from there. -/
private theorem Legal.tocEntries_block (h : p.Legal) {es : List PlacedEntry} {front : Bytes} {i : ℕ}
    (htoc : p.tocPiece.2 = front ++ es.flatMap p.slot) (hfront : front.length = i * p.slotLen)
    (hes : ∀ e ∈ es, e ∈ p.placed) :
    tocEntries (tocSlot p.block (nodeLayout p.block p.subtype p.header)) es.length i =
      es.map PlacedEntry.entry := by
  induction es generalizing front i with
  | nil => rfl
  | cons e es ih =>
    obtain ⟨he, hes⟩ := List.forall_mem_cons.mp hes
    rw [List.flatMap_cons] at htoc
    have htoc' : p.tocPiece.2 = (front ++ p.slot e) ++ es.flatMap p.slot := by
      rw [htoc, List.append_assoc]
    have hfront' : (front ++ p.slot e).length = (i + 1) * p.slotLen := by
      rw [List.length_append, hfront, length_slot, Nat.succ_mul]
    rw [List.length_cons, tocEntries, h.tocSlot_block htoc hfront he, List.map_cons]
    exact congrArg _ (ih htoc' hfront' hes)

/-- The entries of a legal plan are within the cap: each has a slot of the table. -/
theorem Legal.length_placed_le (h : p.Legal) : p.placed.length ≤ maxBtnNkeys := by
  have hfits := h.toc_fits
  have hlen := h.tocLen_lt
  have hslot : p.placed.length ≤ p.placed.length * p.slotLen := by
    refine Nat.le_mul_of_pos_right _ ?_
    rw [NodePlan.slotLen]
    split_ifs <;> norm_num
  rw [maxBtnNkeys]
  omega

/-- The entries of a block of a legal plan are those that the plan lays out. -/
theorem Legal.nodeEntries_block (h : p.Legal) :
    nodeEntries p.block p.subtype = p.placed.map PlacedEntry.entry := by
  have htoc : p.tocPiece.2 = [] ++ p.placed.flatMap p.slot := rfl
  have hscan := h.tocEntries_block htoc (Nat.zero_mul _).symm fun _ he => he
  rw [nodeEntries, h.parseNodeHeader_block]
  dsimp only
  rwa [NodePlan.header, Nat.min_eq_left h.length_placed_le]

/-- Such a block is the node of these entries. -/
theorem Legal.nodeOf_block (h : p.Legal) :
    nodeOf p.block p.subtype =
      if p.header.isLeaf then .leaf (p.placed.map PlacedEntry.entry)
      else .index (p.placed.map PlacedEntry.entry) := by
  rw [nodeOf, h.parseNodeHeader_block, h.nodeEntries_block]

end Decode

end NodePlan

/-- **Node decoding undoes node encoding.** Whatever the flags and the level, the size of the
block, the place and slack of the table of contents and the places of the keys and values, the
decoder returns the entries that were written, in order. -/
theorem node_decoding_undoes_encoding (p : NodePlan) (h : p.Legal) :
    nodeEntries p.block p.subtype = p.placed.map PlacedEntry.entry :=
  h.nodeEntries_block

/-- An entry whose key is stored behind a gap. -/
private def sampleFirst : PlacedEntry :=
  ⟨⟨[1, 2, 3], [4]⟩, 4, 6⟩

/-- An entry whose key is stored before that of the first. -/
private def sampleSecond : PlacedEntry :=
  ⟨⟨[5], [6, 7]⟩, 0, 2⟩

/-- A leaf of the two entries over a block of other bytes, with room for a third in the table of
contents. -/
private def samplePlan : NodePlan where
  subtype := .fsTree
  flags := 2
  level := 0
  tocOff := 2
  tocLen := 24
  placed := [sampleFirst, sampleSecond]
  background := List.replicate 96 0xAA

private theorem forall_mem_placed {P : PlacedEntry → Prop} :
    (∀ e ∈ samplePlan.placed, P e) ↔ P sampleFirst ∧ P sampleSecond := by
  simp [samplePlan]

private theorem samplePlan_spans :
    pieceSpan (samplePlan.keyPiece sampleFirst) = Set.Ico 86 89 ∧
      pieceSpan (samplePlan.keyPiece sampleSecond) = Set.Ico 82 83 ∧
        pieceSpan (samplePlan.valuePiece sampleFirst) = Set.Ico 90 91 ∧
          pieceSpan (samplePlan.valuePiece sampleSecond) = Set.Ico 94 96 :=
  ⟨rfl, rfl, rfl, rfl⟩

private theorem samplePlan_legal : samplePlan.Legal := by
  obtain ⟨hk, hk', hv, hv'⟩ := samplePlan_spans
  have htoc : samplePlan.tocStart = 58 ∧ samplePlan.keyArea = 82 := ⟨rfl, rfl⟩
  constructor
  case lengths => exact forall_mem_placed.mpr ⟨⟨by decide, by decide⟩, by decide, by decide⟩
  case value_header =>
    rw [forall_mem_placed, hv, hv']
    exact ⟨disjoint_Ico_of_le (by norm_num), disjoint_Ico_of_le (by norm_num)⟩
  case value_toc =>
    rw [forall_mem_placed, hv, hv', htoc.1, htoc.2]
    exact ⟨disjoint_Ico_of_le (by norm_num), disjoint_Ico_of_le (by norm_num)⟩
  case keys_apart =>
    refine List.pairwise_pair.mpr ?_
    rw [hk, hk']
    exact (disjoint_Ico_of_le (by norm_num)).symm
  case values_apart =>
    refine List.pairwise_pair.mpr ?_
    rw [hv, hv']
    exact disjoint_Ico_of_le (by norm_num)
  case key_value_apart =>
    simp only [forall_mem_placed, hk, hk', hv, hv']
    exact ⟨⟨disjoint_Ico_of_le (by norm_num), disjoint_Ico_of_le (by norm_num)⟩,
      disjoint_Ico_of_le (by norm_num), disjoint_Ico_of_le (by norm_num)⟩
  all_goals decide +kernel

/-- Both entries are read back from the sample. -/
theorem sample_node_decoded :
    nodeEntries samplePlan.block .fsTree = [⟨[1, 2, 3], [4]⟩, ⟨[5], [6, 7]⟩] :=
  node_decoding_undoes_encoding samplePlan samplePlan_legal

end ApfsCore
