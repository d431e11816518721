import ApfsCore.Format.Reader
import Mathlib.Algebra.GroupWithZero.Nat

/-!
# Records of consecutive fields

Most structures on disk start with little-endian fields one after the other. `encodeFields` writes
such a record from the widths and values of its fields, and a field is read back at its offset,
which is the sum of the widths before it (`readLE_encodeFields`). Both the offset and the field
are found by evaluation once the record is written out.
-/

namespace ApfsCore

/-- Fields one after the other, each with its width in bytes and its value. -/
def encodeFields (fields : List (ℕ × ℕ)) : Bytes :=
  fields.flatMap fun f => leBytes f.1 f.2

/-- Where field number `i` starts. -/
def fieldOffset (fields : List (ℕ × ℕ)) (i : ℕ) : ℕ :=
  ((fields.take i).map Prod.fst).sum

theorem length_encodeFields (fields : List (ℕ × ℕ)) :
    (encodeFields fields).length = (fields.map Prod.fst).sum := by
  induction fields with
  | nil => rfl
  | cons f fields ih =>
    rw [encodeFields, List.flatMap_cons, List.length_append, length_leBytes, List.map_cons,
      List.sum_cons, ← ih]
    rfl

/-- The offsets of a long record are sums of its widths. -/
theorem fieldOffset_of_widths {fields : List (ℕ × ℕ)} {widths : List ℕ}
    (h : fields.map Prod.fst = widths) (i : ℕ) : fieldOffset fields i = (widths.take i).sum := by
  rw [fieldOffset, List.map_take, h]

/-- **Fields are read back** from their offsets, whatever follows the record. -/
theorem readLE_encodeFields {fields : List (ℕ × ℕ)} {w n offset : ℕ} (i : ℕ)
    (hi : fields[i]? = some (w, n)) (hoff : fieldOffset fields i = offset) (hn : n < 256 ^ w)
    (rest : Bytes) : readLE w (encodeFields fields ++ rest) offset = n := by
  obtain ⟨hlt, hget⟩ := List.getElem?_eq_some_iff.mp hi
  have hsplit : fields = fields.take i ++ (w, n) :: fields.drop (i + 1) := by
    rw [← hget, List.getElem_cons_drop, List.take_append_drop]
  have hbytes : encodeFields fields ++ rest =
      encodeFields (fields.take i) ++
        (leBytes w n ++ (encodeFields (fields.drop (i + 1)) ++ rest)) := by
    conv_lhs => rw [hsplit]
    simp only [encodeFields, List.flatMap_append, List.flatMap_cons, List.append_assoc]
  have hlen : (encodeFields (fields.take i)).length = offset := by
    rw [length_encodeFields, ← hoff, fieldOffset]
  rw [hbytes, ← hlen, readLE_append_leBytes hn]

/-- The case of a record with nothing behind it. -/
theorem readLE_encodeFields_end {fields : List (ℕ × ℕ)} {w n offset : ℕ} (i : ℕ)
    (hi : fields[i]? = some (w, n)) (hoff : fieldOffset fields i = offset) (hn : n < 256 ^ w) :
    readLE w (encodeFields fields) offset = n := by
  have h := readLE_encodeFields i hi hoff hn []
  rwa [List.append_nil] at h

/-- What follows the record is found behind its last field. -/
theorem slice_encodeFields {fields : List (ℕ × ℕ)} {offset len : ℕ} {piece rest : Bytes}
    (hoff : (fields.map Prod.fst).sum = offset) (hlen : piece.length = len) :
    slice (encodeFields fields ++ (piece ++ rest)) offset (offset + len) = some piece := by
  have h := slice_middle (a := encodeFields fields) (b := piece) (c := rest)
  rwa [length_encodeFields, hoff, hlen] at h

end ApfsCore
