import ApfsCore.General.Packing
import ApfsCore.Volume.FsRecord

/-!
# Extended fields, written and read back

An `xf_blob` has a table of descriptors and, behind it, the values, each padded to a multiple of
eight bytes. Only the lengths are stored, so `parse_xfields` finds a value by adding up the
padded lengths before it. Read back from a blob that has been cut anywhere, the fields are the
longest prefix whose values lie inside the cut (`xfieldsFrom_take`).
-/

namespace ApfsCore

/-- An extended field. -/
structure XField where
  type : UInt8
  flags : UInt8
  value : Bytes
  length_le : value.length ≤ 65535

namespace XField

/-- The `x_field_t` descriptor of a field. -/
def descriptor (f : XField) : Bytes :=
  [f.type, f.flags] ++ leBytes 2 f.value.length

/-- The size of a field's value. -/
def size (f : XField) : ℕ :=
  f.value.length

/-- What `parse_xfields` returns of a field. -/
def parsed (f : XField) : UInt8 × Bytes :=
  (f.type, f.value)

theorem length_descriptor (f : XField) : f.descriptor.length = 4 := by
  rw [descriptor, List.length_append, length_leBytes]
  rfl

theorem length_descriptors (fields : List XField) :
    (fields.flatMap descriptor).length = 4 * fields.length := by
  induction fields with
  | nil => rfl
  | cons f fields ih =>
    rw [List.flatMap_cons, List.length_append, length_descriptor, ih, List.length_cons]
    omega

end XField

/-- The `xf_blob` of the given fields, whose values are laid out in `area`. -/
def xfBlob (fields : List XField) (usedData : ℕ) (area : Bytes) : Bytes :=
  leBytes 2 fields.length ++ leBytes 2 usedData ++ (fields.flatMap XField.descriptor ++ area)

/-- The end of the descriptor table. -/
def descEnd (fields : List XField) : ℕ :=
  4 + 4 * fields.length

/-! ### The walk over a cut blob -/

/-- A descriptor inside the cut is read as it was written. -/
private theorem readDescriptor_take {blob front after : Bytes} {f : XField} {n i : ℕ}
    (hblob : blob = front ++ (f.descriptor ++ after)) (hfront : front.length = 4 + i * 4)
    (hn : 4 + i * 4 + 4 ≤ n) :
    (blob.take n).getD (4 + i * 4) 0 = f.type ∧
      leU16 (blob.take n) (4 + i * 4 + 2) = f.value.length := by
  have htype : blob[4 + i * 4]? = some f.type := by
    rw [hblob, List.getElem?_append_right hfront.le, hfront, Nat.sub_self]
    rfl
  have hsize : leU16 blob (4 + i * 4 + 2) = f.value.length := by
    have hlt : f.value.length < 256 ^ 2 := Nat.lt_succ_of_le f.length_le
    have hread := readLE_append_leBytes (a := front ++ [f.type, f.flags]) (b := after) hlt
    rw [List.length_append, hfront] at hread
    rw [leU16, hblob, XField.descriptor, List.append_assoc, ← List.append_assoc front]
    exact hread
  refine ⟨?_, ?_⟩
  · rw [List.getD_eq_getElem?_getD, List.getElem?_take_of_lt (by omega), htype, Option.getD_some]
  · rw [← hsize]
    exact readLE_take (by omega)

/-- A value is read exactly if it ends by the cut. -/
private theorem slice_take_eq {blob front value after : Bytes} {n : ℕ}
    (hblob : blob = front ++ (value ++ after)) :
    slice (blob.take n) front.length (front.length + value.length) =
      if front.length + value.length ≤ n then some value else none := by
  split_ifs with hfit
  · rw [slice_take hfit, hblob, slice_middle]
  · rw [slice_eq_none_iff, List.length_take]
    omega

/-- **The walk over a cut blob.** From a field on whose descriptor and value it stands, and with
the whole table inside the cut, the walk returns the fields whose values fit. -/
private theorem xfieldsFrom_take {blob : Bytes} {n : ℕ} {fields : List XField} {i : ℕ}
    {dfront dafter vfront varea : Bytes}
    (hdesc : blob = dfront ++ (fields.flatMap XField.descriptor ++ dafter))
    (hdfront : dfront.length = 4 + i * 4) (hval : blob = vfront ++ varea)
    (hpacked : Packed 8 (fields.map XField.value) varea)
    (hn : 4 + i * 4 + 4 * fields.length ≤ n) :
    xfieldsFrom (blob.take n) fields.length i vfront.length =
      (fitting 8 XField.size XField.size n vfront.length fields).map XField.parsed := by
  induction fields generalizing i dfront vfront varea with
  | nil => rfl
  | cons f fields ih =>
    rw [List.length_cons] at hn
    rw [List.flatMap_cons, List.append_assoc] at hdesc
    obtain ⟨after, rfl, hnext⟩ := hpacked.exists_append
    obtain ⟨htype, hsize⟩ := readDescriptor_take hdesc hdfront (n := n) (by omega)
    rw [List.length_cons, xfieldsFrom, fitting]
    by_cases hfit : vfront.length + f.size ≤ n
    · have hslice := (slice_take_eq hval).trans (if_pos hfit)
      rw [if_pos hfit, List.map_cons]
      simp only [hsize, htype, hslice]
      congr 1
      rcases hnext with hnil | ⟨pad, rest, rfl, hpad, hrest⟩
      · -- nothing follows the last field
        rw [List.map_eq_nil_iff] at hnil
        subst hnil
        rfl
      · have hoff : (vfront ++ (f.value ++ pad)).length = vfront.length + roundUp 8 f.size := by
          rw [List.length_append, hpad, XField.size]
        have hdesc' : blob =
            (dfront ++ f.descriptor) ++ (fields.flatMap XField.descriptor ++ dafter) := by
          rw [hdesc, List.append_assoc]
        have hdfront' : (dfront ++ f.descriptor).length = 4 + (i + 1) * 4 := by
          rw [List.length_append, hdfront, f.length_descriptor]
          omega
        have hval' : blob = (vfront ++ (f.value ++ pad)) ++ rest := by
          rw [hval, List.append_assoc, List.append_assoc]
        have htail := ih hdesc' hdfront' hval' hrest (by omega)
        rw [hoff] at htail
        exact htail
    · have hslice := (slice_take_eq hval).trans (if_neg hfit)
      rw [if_neg hfit]
      simp only [hsize, hslice]
      rfl

section Blob

variable {fields : List XField} (usedData : ℕ) {area : Bytes}

theorem leU16_xfBlob_take (area : Bytes) (hcount : fields.length ≤ 4096) {n : ℕ} (hn : 4 ≤ n) :
    leU16 ((xfBlob fields usedData area).take n) 0 = fields.length := by
  have hlt : fields.length < 256 ^ 2 := by omega
  rw [leU16, readLE_take (by omega), xfBlob, List.append_assoc, readLE_leBytes_append,
    Nat.mod_eq_of_lt hlt]

theorem length_xfBlob (fields : List XField) (area : Bytes) :
    (xfBlob fields usedData area).length = descEnd fields + area.length := by
  simp only [xfBlob, List.length_append, length_leBytes, XField.length_descriptors, descEnd]
  omega

/-- Nothing fits a cut before the end of the table, behind which the values start. -/
theorem fitting_descEnd_of_lt {n : ℕ} (hn : n < descEnd fields) :
    fitting 8 XField.size XField.size n (descEnd fields) fields = [] := by
  generalize descEnd fields = base at hn
  cases fields with
  | nil => rfl
  | cons f fields => rw [fitting, if_neg (by omega)]

/-- A cut blob yields the fields that fit. -/
theorem parseXfields_take (hcount : fields.length ≤ 4096)
    (hpacked : Packed 8 (fields.map XField.value) area) (n : ℕ) :
    parseXfields ((xfBlob fields usedData area).take n) =
      (fitting 8 XField.size XField.size n (descEnd fields) fields).map XField.parsed := by
  have hlen := length_xfBlob usedData fields area
  have hdesc : descEnd fields = 4 + 4 * fields.length := rfl
  have htake := List.length_take (l := xfBlob fields usedData area) (i := n)
  rw [parseXfields]
  by_cases htable : descEnd fields ≤ n
  · have hfront : (leBytes 2 fields.length ++ leBytes 2 usedData).length = 4 + 0 * 4 := by
      simp only [List.length_append, length_leBytes]
    have hvfront : (leBytes 2 fields.length ++ leBytes 2 usedData ++
        fields.flatMap XField.descriptor).length = descEnd fields := by
      rw [List.length_append, hfront, XField.length_descriptors, hdesc]
    have hval : xfBlob fields usedData area = leBytes 2 fields.length ++ leBytes 2 usedData ++
        fields.flatMap XField.descriptor ++ area :=
      (List.append_assoc _ _ _).symm
    have htable' : xfBlob fields usedData area = leBytes 2 fields.length ++ leBytes 2 usedData ++
        (fields.flatMap XField.descriptor ++ area) :=
      rfl
    have hwalk := xfieldsFrom_take (n := n) htable' hfront hval hpacked (by omega)
    rw [hvfront] at hwalk
    rw [if_neg (by omega)]
    simp only [leU16_xfBlob_take usedData area hcount (show 4 ≤ n by omega), maxXfNumExts]
    rw [Nat.min_eq_left hcount, if_neg (by omega), Nat.mul_comm, Nat.add_comm, ← hdesc, hwalk]
  · -- the table does not fit, and the values start behind it
    have hnone : fitting 8 XField.size XField.size n (descEnd fields) fields = [] :=
      fitting_descEnd_of_lt (by omega)
    rw [hnone, List.map_nil]
    split_ifs with hshort
    · rfl
    · simp only [leU16_xfBlob_take usedData area hcount (show 4 ≤ n by omega), maxXfNumExts]
      rw [Nat.min_eq_left hcount, if_pos (by omega)]

/-- A whole blob yields every field. -/
theorem parseXfields_xfBlob (hcount : fields.length ≤ 4096)
    (hpacked : Packed 8 (fields.map XField.value) area) :
    parseXfields (xfBlob fields usedData area) = fields.map XField.parsed := by
  have hall : fitting 8 XField.size XField.size (xfBlob fields usedData area).length
      (descEnd fields) fields = fields := by
    refine fitting_eq_self fun i f hf => ?_
    rw [length_xfBlob]
    exact hpacked.end_le (descEnd fields) hf
  have htake := parseXfields_take usedData hcount hpacked
    (xfBlob fields usedData area).length
  rwa [List.take_length, hall] at htake

end Blob

/-! ### Inodes -/

/-- The last field of the given type. -/
def lastField (type : UInt8) (fields : List XField) : Option XField :=
  (fields.filter fun f => f.type = type).getLast?

/-- Keeping what a fold reads off each field of one type leaves what it reads off the last. -/
private theorem foldl_parsed {γ : Type} (type : UInt8) (read : Bytes → γ) (fields : List XField)
    (init : Option γ) :
    (fields.map XField.parsed).foldl
        (fun kept f => if f.1 = type then some (read f.2) else kept) init =
      ((lastField type fields).map fun f => read f.value).or init := by
  induction fields using List.reverseRecOn with
  | nil => rfl
  | append_singleton fields f ih =>
    rw [List.map_append, List.foldl_append, ih, lastField, lastField, List.filter_append]
    by_cases htype : f.type = type
    · simp [XField.parsed, htype]
    · simp [XField.parsed, htype]

/-- What reading back extended fields gives: the fields, the longest prefix of them that a cut
leaves, and in an inode the size and name of the last field of each kind. -/
structure XfieldsReadBack (fields : List XField) (usedData : ℕ) (area : Bytes) : Prop where
  whole : parseXfields (xfBlob fields usedData area) = fields.map XField.parsed
  cut : ∀ n, ∃ k, FirstFitting 8 XField.size XField.size n (descEnd fields) fields k ∧
    parseXfields ((xfBlob fields usedData area).take n) = (fields.take k).map XField.parsed
  table_cut : ∀ n < descEnd fields, parseXfields ((xfBlob fields usedData area).take n) = []
  inode : ∀ (oid : ℕ) (fixed : Bytes), fixed.length = 92 →
    ∃ inode, Inode.parse oid (fixed ++ xfBlob fields usedData area) = .ok inode ∧
      inode.size = (lastField 8 fields).map (fun f => leU64 f.value 0) ∧
      inode.name = (lastField 4 fields).map fun f => decodeCstr f.value

/-- **Extended fields are read back.** For every list of at most 4096 fields, laid out behind
their descriptors with any padding and anything after the last value. -/
theorem xfields_read_back (fields : List XField) (usedData : ℕ) (area : Bytes)
    (hcount : fields.length ≤ 4096) (hpacked : Packed 8 (fields.map XField.value) area) :
    XfieldsReadBack fields usedData area where
  whole := parseXfields_xfBlob usedData hcount hpacked
  cut n := by
    have hneed : ∀ f : XField, f.size ≤ f.size := fun _ => le_rfl
    obtain ⟨k, hk, htake⟩ := exists_fitting (show 0 < 8 by norm_num) hneed n (descEnd fields) fields
    exact ⟨k, hk, by rw [parseXfields_take usedData hcount hpacked, htake]⟩
  table_cut n hn := by
    rw [parseXfields_take usedData hcount hpacked, fitting_descEnd_of_lt hn, List.map_nil]
  inode oid fixed hfixed := by
    have hfields : inodeXfields (fixed ++ xfBlob fields usedData area) =
        fields.map XField.parsed := by
      have hlen := length_xfBlob usedData fields area
      rw [inodeXfields, if_pos (by rw [List.length_append, hlen, descEnd]; omega),
        List.drop_left' hfixed, parseXfields_xfBlob usedData hcount hpacked]
    refine ⟨_, rfl, ?_, ?_⟩
    · dsimp only
      rw [hfields, foldl_parsed 8 fun value => leU64 value 0, Option.or_none]
    · dsimp only
      rw [hfields, foldl_parsed 4 decodeCstr, Option.or_none]

/-- A name that needs padding, and a data stream of five bytes behind it. -/
private def sampleFields : List XField :=
  [⟨4, 2, [97, 98, 99, 0], by decide⟩, ⟨8, 0, leBytes 8 5, by decide⟩]

/-- The size of the sample is found behind the padded name. -/
theorem sample_read_back :
    ∃ inode, Inode.parse 16 (List.replicate 92 0 ++ xfBlob sampleFields 16
        ([97, 98, 99, 0] ++ (List.replicate 4 0 ++ leBytes 8 5))) = .ok inode ∧
      inode.size = some 5 ∧ inode.name = some "abc".toList := by
  have hpacked : Packed 8 (sampleFields.map XField.value)
      ([97, 98, 99, 0] ++ (List.replicate 4 0 ++ leBytes 8 5)) :=
    .cons rfl (.last (leBytes 8 5) [])
  obtain ⟨inode, hparse, hsize, hname⟩ :=
    (xfields_read_back sampleFields 16 _ (by decide) hpacked).inode 16 (List.replicate 92 0)
      List.length_replicate
  exact ⟨inode, hparse, hsize.trans (by decide), hname.trans (by decide)⟩

end ApfsCore
