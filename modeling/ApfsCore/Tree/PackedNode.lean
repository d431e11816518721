import ApfsCore.Tree.NodeCodec

/-!
# Nodes packed from both ends

The simplest way to write a node: the table of contents behind the header, the keys in order behind
it, and the values in reverse order at the end of the block, before the footer of a root.
`encodeNode` writes it. Whatever the entries are, as long as they fit the block (`Packable`) the
result is a block of a legal plan (`packedPlan_legal`), so it is read as the node that was written.
-/

namespace ApfsCore

/-- Entries with the places they are packed at. -/
def packedEntries : ℕ → ℕ → List Entry → List PlacedEntry
  | _, _, [] => []
  | koff, voff, e :: es =>
    ⟨e, koff, voff + e.value.length⟩ ::
      packedEntries (koff + e.key.length) (voff + e.value.length) es

/-- The length of the table of contents of a packed node. -/
def packedToc (flags : ℕ) (es : List Entry) : ℕ :=
  es.length * if flags &&& 0x4 != 0 then 4 else 8

/-- What a packed node takes up. -/
def packedSize (flags : ℕ) (es : List Entry) : ℕ :=
  56 + packedToc flags es + (es.flatMap Entry.key).length + (es.flatMap Entry.value).length +
    if flags &&& 0x1 != 0 then 40 else 0

/-- The entries can be packed into a block: they fit it, and where the node has lengths fixed by
its subtype they have those. -/
structure Packable (subtype : BTreeSubtype) (flags level : ℕ) (es : List Entry) (blockSize : ℕ) :
    Prop where
  flags_lt : flags < 65536
  level_lt : level < 65536
  fits : packedSize flags es ≤ blockSize
  block_le : blockSize ≤ 65536
  fixed : (flags &&& 0x4 != 0) = true → subtype = .omap ∧ ∀ e ∈ es, e.key.length = 16 ∧
    e.value.length = if (flags &&& 0x2 != 0) || level == 0 then 16 else 8

instance (subtype : BTreeSubtype) (flags level : ℕ) (es : List Entry) (blockSize : ℕ) :
    Decidable (Packable subtype flags level es blockSize) :=
  decidable_of_iff (flags < 65536 ∧ level < 65536 ∧ packedSize flags es ≤ blockSize ∧
    blockSize ≤ 65536 ∧ ((flags &&& 0x4 != 0) = true → subtype = .omap ∧ ∀ e ∈ es,
      e.key.length = 16 ∧ e.value.length = if (flags &&& 0x2 != 0) || level == 0 then 16 else 8))
    ⟨fun h => ⟨h.1, h.2.1, h.2.2.1, h.2.2.2.1, h.2.2.2.2⟩,
      fun h => ⟨h.flags_lt, h.level_lt, h.fits, h.block_le, h.fixed⟩⟩

/-- The plan of a packed node, over a block that holds it already. -/
def packedPlan (subtype : BTreeSubtype) (flags level : ℕ) (es : List Entry) (blockSize : ℕ) :
    NodePlan where
  subtype
  flags
  level
  tocOff := 0
  tocLen := packedToc flags es
  placed := packedEntries 0 0 es
  background := encodeNode flags level es blockSize

section Placed

variable {koff voff : ℕ} {es : List Entry}

theorem map_entry_packedEntries (koff voff : ℕ) (es : List Entry) :
    (packedEntries koff voff es).map PlacedEntry.entry = es := by
  induction es generalizing koff voff with
  | nil => rfl
  | cons e es ih => rw [packedEntries, List.map_cons, ih]

theorem length_packedEntries (koff voff : ℕ) (es : List Entry) :
    (packedEntries koff voff es).length = es.length := by
  conv_rhs => rw [← map_entry_packedEntries koff voff es]
  rw [List.length_map]

/-- Where an entry is packed: its key behind the keys before it, its value before the values
before it. -/
theorem place_of_mem_packedEntries {d : PlacedEntry} (h : d ∈ packedEntries koff voff es) :
    ∃ before after, es = before ++ d.entry :: after ∧
      d.koff = koff + (before.flatMap Entry.key).length ∧
      d.voff = voff + (before.flatMap Entry.value).length + d.entry.value.length := by
  induction es generalizing koff voff with
  | nil => cases h
  | cons e es ih =>
    rw [packedEntries, List.mem_cons] at h
    rcases h with rfl | h
    · exact ⟨[], es, rfl, rfl, rfl⟩
    · obtain ⟨before, after, rfl, hk, hv⟩ := ih h
      refine ⟨e :: before, after, rfl, ?_, ?_⟩
      · rw [List.flatMap_cons, List.length_append, hk]
        omega
      · rw [List.flatMap_cons, List.length_append, hv]
        omega

/-- Keys are packed one after the other, and so are values. -/
theorem pairwise_packedEntries (koff voff : ℕ) (es : List Entry) :
    (packedEntries koff voff es).Pairwise fun d e =>
      d.koff + d.entry.key.length ≤ e.koff ∧ d.voff + e.entry.value.length ≤ e.voff := by
  induction es generalizing koff voff with
  | nil => exact .nil
  | cons e es ih =>
    rw [packedEntries]
    refine .cons (fun d hd => ?_) (ih _ _)
    obtain ⟨before, after, -, hk, hv⟩ := place_of_mem_packedEntries hd
    rw [hk, hv]
    constructor <;> dsimp only <;> omega

/-- An entry's own bytes are among those of all entries. -/
theorem length_le_of_split {before after : List Entry} {e : Entry} (f : Entry → Bytes)
    (h : es = before ++ e :: after) :
    (before.flatMap f).length + (f e).length + (after.flatMap f).length =
      (es.flatMap f).length := by
  rw [h, List.flatMap_append, List.flatMap_cons, List.length_append, List.length_append]
  omega

end Placed

section Packed

variable {subtype : BTreeSubtype} {flags level blockSize : ℕ} {es : List Entry}

theorem length_encodeToc (fixed : Bool) (koff voff : ℕ) (es : List Entry) :
    (encodeToc fixed koff voff es).length = es.length * if fixed then 4 else 8 := by
  induction es generalizing koff voff with
  | nil => exact (Nat.zero_mul _).symm
  | cons e es ih =>
    rw [encodeToc, List.length_append, ih, List.length_cons]
    split_ifs <;> simp only [List.length_append, length_leBytes] <;> omega

theorem length_flatMap_reverse (f : Entry → Bytes) (es : List Entry) :
    (es.reverse.flatMap f).length = (es.flatMap f).length := by
  induction es with
  | nil => rfl
  | cons e es ih =>
    rw [List.reverse_cons, List.flatMap_append, List.length_append, ih, List.flatMap_cons,
      List.flatMap_cons, List.flatMap_nil, List.append_nil, List.length_append, Nat.add_comm]

/-- A packed node fills its block. -/
theorem length_encodeNode_of_packed (level : ℕ) (hfit : packedSize flags es ≤ blockSize) :
    (encodeNode flags level es blockSize).length = blockSize := by
  refine length_encodeNode ?_
  rw [length_encodeToc, length_flatMap_reverse]
  exact hfit

/-- The table of contents of a packed node has the slots of its entries. -/
theorem encodeToc_eq (p : NodePlan) (koff voff : ℕ) (es : List Entry) :
    encodeToc p.header.isFixedKv koff voff es = (packedEntries koff voff es).flatMap p.slot := by
  induction es generalizing koff voff with
  | nil => rfl
  | cons e es ih =>
    rw [encodeToc, packedEntries, List.flatMap_cons, ih]
    rfl

/-- The parts of a packed node: the header, and behind it the table of contents, the keys, what is
left free, the values and the footer. -/
theorem exists_encodeNode_eq (flags level : ℕ) (es : List Entry) (blockSize : ℕ) :
    ∃ head gap, head.length = 56 ∧
      slice head 32 44 = some (leBytes 2 flags ++ leBytes 2 level ++ leBytes 4 es.length ++
        leBytes 2 0 ++ leBytes 2 (encodeToc (flags &&& 0x4 != 0) 0 0 es).length) ∧
      encodeNode flags level es blockSize = head ++ (encodeToc (flags &&& 0x4 != 0) 0 0 es ++
        (es.flatMap Entry.key ++ (gap ++ (es.reverse.flatMap Entry.value ++
          List.replicate (if flags &&& 0x1 != 0 then 40 else 0) 0)))) := by
  have hstamp : ∀ body, ∃ sum : Bytes, sum.length = 8 ∧ stamp body = sum ++ body :=
    fun _ => ⟨_, length_leBytes _ _, rfl⟩
  obtain ⟨sum, hsum, hblock⟩ := hstamp _
  have hfront : (sum ++ List.replicate 24 0).length = 32 := by
    rw [List.length_append, hsum, List.length_replicate]
  refine ⟨sum ++ List.replicate 24 0 ++ ((leBytes 2 flags ++ leBytes 2 level ++
    leBytes 4 es.length ++ leBytes 2 0 ++
    leBytes 2 (encodeToc (flags &&& 0x4 != 0) 0 0 es).length) ++ List.replicate 12 0),
    List.replicate (blockSize - 56 - (encodeToc (flags &&& 0x4 != 0) 0 0 es).length -
      (es.flatMap Entry.key).length - (es.reverse.flatMap Entry.value).length -
      if flags &&& 0x1 != 0 then 40 else 0) 0, ?_, ?_, ?_⟩
  · rw [List.length_append, hfront]
    simp only [List.length_append, length_leBytes, List.length_replicate]
  · exact slice_of_eq_append rfl hfront
  · rw [encodeNode]
    refine hblock.trans ?_
    simp only [List.append_assoc]

/-- Where the areas of a packed node lie. -/
theorem packedPlan_geometry (subtype : BTreeSubtype) (level : ℕ)
    (hfit : packedSize flags es ≤ blockSize) :
    (packedPlan subtype flags level es blockSize).background.length = blockSize ∧
      (packedPlan subtype flags level es blockSize).keyArea = 56 + packedToc flags es ∧
      (packedPlan subtype flags level es blockSize).valBase =
        blockSize - if flags &&& 0x1 != 0 then 40 else 0 := by
  have hlen := length_encodeNode_of_packed level hfit
  refine ⟨hlen, rfl, ?_⟩
  rw [NodePlan.valBase, packedPlan, hlen]
  split_ifs <;> first | rfl | contradiction

/-- Every piece of the plan is in its place in the packed node. -/
theorem slice_encodeNode (hfit : packedSize flags es ≤ blockSize) {piece : ℕ × Bytes}
    (hpiece : piece ∈ (packedPlan subtype flags level es blockSize).pieces) :
    slice (encodeNode flags level es blockSize) piece.1 (piece.1 + piece.2.length) =
      some piece.2 := by
  have hlen := length_encodeNode_of_packed level hfit
  have htocLen : (encodeToc (flags &&& 0x4 != 0) 0 0 es).length = packedToc flags es :=
    length_encodeToc _ 0 0 es
  obtain ⟨head, gap, hhead, hfields, hblock⟩ := exists_encodeNode_eq flags level es blockSize
  obtain ⟨-, -, hbase⟩ := packedPlan_geometry subtype level hfit
  rw [NodePlan.pieces, List.mem_cons, List.mem_cons, List.mem_append, List.mem_map,
    List.mem_map] at hpiece
  rcases hpiece with rfl | rfl | ⟨d, hd, rfl⟩ | ⟨d, hd, rfl⟩
  · have hcount : (packedPlan subtype flags level es blockSize).placed.length = es.length :=
      length_packedEntries 0 0 es
    rw [NodePlan.headerPiece, hcount]
    rw [htocLen] at hfields
    rw [hblock]
    refine (slice_append_left ?_).trans hfields
    rw [hhead]
    simp only [List.length_append, length_leBytes]
    norm_num
  · have htoc : (packedPlan subtype flags level es blockSize).tocPiece =
        (56, encodeToc (flags &&& 0x4 != 0) 0 0 es) :=
      congrArg (Prod.mk 56) (encodeToc_eq (packedPlan subtype flags level es blockSize) 0 0 es).symm
    rw [htoc]
    exact slice_of_eq_append hblock hhead
  · -- a key lies behind the keys of the entries before it
    obtain ⟨before, after, hsplit, hk, -⟩ := place_of_mem_packedEntries hd
    have hkeys : es.flatMap Entry.key =
        before.flatMap Entry.key ++ (d.entry.key ++ after.flatMap Entry.key) := by
      rw [hsplit, List.flatMap_append, List.flatMap_cons]
    refine slice_of_eq_append (a := head ++ encodeToc (flags &&& 0x4 != 0) 0 0 es ++
      before.flatMap Entry.key) (c := after.flatMap Entry.key ++ (gap ++
        (es.reverse.flatMap Entry.value ++
          List.replicate (if flags &&& 0x1 != 0 then 40 else 0) 0))) ?_ ?_
    · rw [hblock, hkeys]
      simp only [NodePlan.keyPiece, List.append_assoc]
    · rw [List.length_append, List.length_append, hhead, htocLen]
      show _ = 56 + 0 + packedToc flags es + d.koff
      omega
  · -- a value lies in front of the values of the entries before it
    obtain ⟨before, after, hsplit, -, hv⟩ := place_of_mem_packedEntries hd
    have hvalues : es.reverse.flatMap Entry.value = after.reverse.flatMap Entry.value ++
        (d.entry.value ++ before.reverse.flatMap Entry.value) := by
      rw [hsplit, List.reverse_append, List.reverse_cons, List.flatMap_append,
        List.flatMap_append, List.flatMap_singleton, List.append_assoc]
    rw [hvalues] at hblock
    have hsum := congrArg List.length hblock
    rw [hlen] at hsum
    simp only [List.length_append, List.length_replicate, length_flatMap_reverse] at hsum
    refine slice_of_eq_append (a := head ++ encodeToc (flags &&& 0x4 != 0) 0 0 es ++
      es.flatMap Entry.key ++ gap ++ after.reverse.flatMap Entry.value)
      (c := before.reverse.flatMap Entry.value ++
        List.replicate (if flags &&& 0x1 != 0 then 40 else 0) 0) ?_ ?_
    · rw [hblock]
      simp only [NodePlan.valuePiece, List.append_assoc]
    · simp only [List.length_append, length_flatMap_reverse, NodePlan.valuePiece, hbase]
      omega

/-- What the place of an entry of a packed node is bounded by. -/
theorem bounds_of_mem_packedEntries {d : PlacedEntry} (h : d ∈ packedEntries 0 0 es) :
    d.koff + d.entry.key.length ≤ (es.flatMap Entry.key).length ∧
      d.entry.value.length ≤ d.voff ∧ d.voff ≤ (es.flatMap Entry.value).length := by
  obtain ⟨before, after, hsplit, hk, hv⟩ := place_of_mem_packedEntries h
  have hkeys := length_le_of_split Entry.key hsplit
  have hvalues := length_le_of_split Entry.value hsplit
  omega

/-- **Entries that fit a block can be written to it.** -/
theorem packedPlan_legal (h : Packable subtype flags level es blockSize) :
    (packedPlan subtype flags level es blockSize).Legal := by
  have hfit := h.fits
  have hblock := h.block_le
  obtain ⟨hlen, harea, hbase⟩ := packedPlan_geometry subtype level hfit
  have hbounds : ∀ d ∈ packedEntries 0 0 es, _ := fun d hd => bounds_of_mem_packedEntries hd
  have happart : (packedPlan subtype flags level es blockSize).placed.Pairwise _ :=
    pairwise_packedEntries 0 0 es
  have hcount : (packedPlan subtype flags level es blockSize).placed.length = es.length :=
    length_packedEntries 0 0 es
  rw [packedSize] at hfit
  have hlenOk : ∀ d ∈ (packedPlan subtype flags level es blockSize).placed,
      (packedPlan subtype flags level es blockSize).LengthsOk d := by
    intro d hd
    have hbound := hbounds d hd
    obtain ⟨before, after, hsplit, -, -⟩ := place_of_mem_packedEntries hd
    have hmem : d.entry ∈ es := by
      rw [hsplit]
      exact List.mem_append_right _ List.mem_cons_self
    rw [NodePlan.LengthsOk]
    by_cases hfixed : (packedPlan subtype flags level es blockSize).header.isFixedKv = true
    · rw [if_pos hfixed]
      exact ⟨(h.fixed hfixed).1, (h.fixed hfixed).2 _ hmem⟩
    · rw [if_neg hfixed]
      omega
  refine
    { length := ?_, flags_lt := h.flags_lt, level_lt := h.level_lt, tocOff_lt := Nat.zero_lt_succ _
      tocLen_lt := ?_, toc_fits := ?_, keyArea_le := ?_
      koff_lt := fun d hd => ?_, voff_lt := fun d hd => ?_
      lengths := hlenOk, key_in := fun d hd => ?_, value_in := fun d hd => ?_
      value_header := fun d hd => ?_, value_toc := fun d hd => ?_
      keys_apart := ?_, values_apart := ?_, key_value_apart := fun d hd e he => ?_ }
  · omega
  · show packedToc flags es < 65536
    omega
  · rw [hcount]
    rfl
  · omega
  · have hd := hbounds d hd
    omega
  · have hd := hbounds d hd
    omega
  · have hd := hbounds d hd
    omega
  · have hd := hbounds d hd
    omega
  · have hd := hbounds d hd
    refine disjoint_Ico_of_le ?_
    simp only [NodePlan.valuePiece, hbase]
    omega
  · have hd := hbounds d hd
    refine disjoint_Ico_of_le ?_
    simp only [NodePlan.valuePiece, hbase, harea]
    omega
  · exact happart.imp fun hde => disjoint_Ico_of_le (by simp only [NodePlan.keyPiece]; omega)
  · refine happart.imp_of_mem fun hd he hde => (disjoint_Ico_of_le ?_).symm
    have hd := hbounds _ hd
    have he := hbounds _ he
    simp only [NodePlan.valuePiece, hbase]
    omega
  · have hd := hbounds d hd
    have he := hbounds e he
    refine disjoint_Ico_of_le ?_
    simp only [NodePlan.keyPiece, NodePlan.valuePiece, hbase, harea]
    omega

/-- A packed node is the block of its plan. -/
theorem block_packedPlan (subtype : BTreeSubtype) (hfit : packedSize flags es ≤ blockSize) :
    (packedPlan subtype flags level es blockSize).block = encodeNode flags level es blockSize :=
  writeAll_eq_self fun _ hpiece => slice_encodeNode hfit hpiece

end Packed

end ApfsCore
