import Mathlib.Data.List.Basic
import Mathlib.Data.List.TakeDrop
import Mathlib.Data.Nat.Digits.Lemmas

/-!
# Bounds-checked slices and little-endian words

The vocabulary every on-disk decoder is written in: `slice data i j` is the checked
half-open range `data[i..j]`, absent as soon as it leaves the buffer, and `leNat` reads a
list of bytes as a little-endian number (`Nat.ofDigits 256`). `leBytes w n` is the
`w`-byte little-endian encoding, with the round trip `leNat_leBytes`.

The slice lemmas say how a slice sees a prefix or a suffix of a concatenation, which is
what an argument about a buffer assembled from pieces needs.
-/

namespace ApfsCore

/-! ### Checked slices -/

/-- The half-open range `data[start..stop]`, or `none` when it is not inside `data`. -/
def slice {α : Type*} (data : List α) (start stop : ℕ) : Option (List α) :=
  if start ≤ stop ∧ stop ≤ data.length then some ((data.drop start).take (stop - start))
  else none

section Slice

variable {α : Type*} {data s : List α} {i j : ℕ}

theorem slice_eq_some_iff :
    slice data i j = some s ↔ i ≤ j ∧ j ≤ data.length ∧ (data.drop i).take (j - i) = s := by
  rw [slice]
  split_ifs with h
  · simp [h.1, h.2]
  · simp only [false_iff, not_and]
    exact fun h₁ h₂ => absurd ⟨h₁, h₂⟩ h

theorem slice_eq_none_iff : slice data i j = none ↔ ¬(i ≤ j ∧ j ≤ data.length) := by
  rw [slice]
  split_ifs with h <;> simp [h]

/-- A slice that lies in the buffer is present. -/
theorem slice_of_le (h₁ : i ≤ j) (h₂ : j ≤ data.length) :
    slice data i j = some ((data.drop i).take (j - i)) :=
  if_pos ⟨h₁, h₂⟩

theorem length_of_slice (h : slice data i j = some s) : s.length = j - i := by
  obtain ⟨h₁, h₂, rfl⟩ := slice_eq_some_iff.mp h
  rw [List.length_take, List.length_drop]
  omega

/-- The elements of a slice are the buffer's own, shifted by its start. -/
theorem getElem?_of_slice (h : slice data i j = some s) {k : ℕ} (hk : k < j - i) :
    s[k]? = data[i + k]? := by
  obtain ⟨-, -, rfl⟩ := slice_eq_some_iff.mp h
  rw [List.getElem?_take_of_lt hk, List.getElem?_drop]

/-- Buffers of one length that agree inside a range have the same slice there. -/
theorem slice_congr {a b : List α} (hlen : a.length = b.length)
    (h : ∀ k, i ≤ k → k < j → a[k]? = b[k]?) : slice a i j = slice b i j := by
  rw [slice, slice, hlen]
  split_ifs with hij
  · congr 1
    refine List.ext_getElem? fun k => ?_
    rw [List.getElem?_take, List.getElem?_take]
    split_ifs with hk
    · rw [List.getElem?_drop, List.getElem?_drop]
      exact h (i + k) (by omega) (by omega)
    · rfl
  · rfl

/-- A slice is found in every buffer that agrees with this one inside its range. -/
theorem slice_of_agree {a b : List α} (hij : i < j) (h : slice a i j = some s)
    (hagree : ∀ k, i ≤ k → k < j → b[k]? = a[k]?) : slice b i j = some s := by
  obtain ⟨hle, hlen, hs⟩ := slice_eq_some_iff.mp h
  have hlast : j - 1 < b.length := by
    by_contra hge
    have hnone := hagree (j - 1) (by omega) (by omega)
    rw [List.getElem?_eq_none (Nat.le_of_not_lt hge), List.getElem?_eq_getElem (by omega)] at hnone
    cases hnone
  refine slice_eq_some_iff.mpr ⟨hle, by omega, hs ▸ List.ext_getElem? fun k => ?_⟩
  rw [List.getElem?_take, List.getElem?_take]
  split_ifs with hk
  · rw [List.getElem?_drop, List.getElem?_drop]
    exact hagree (i + k) (by omega) (by omega)
  · rfl

/-- A slice that ends inside a prefix is read off that prefix. -/
theorem slice_append_left {a b : List α} (h : j ≤ a.length) :
    slice (a ++ b) i j = slice a i j := by
  unfold slice
  by_cases hij : i ≤ j
  · have hab : j ≤ (a ++ b).length := by
      rw [List.length_append]
      omega
    rw [if_pos ⟨hij, hab⟩, if_pos ⟨hij, h⟩, List.drop_append_of_le_length (hij.trans h),
      List.take_append_of_le_length (by rw [List.length_drop]; omega)]
  · rw [if_neg fun h' => hij h'.1, if_neg fun h' => hij h'.1]

/-- A slice that starts past a prefix is read off the remainder. -/
theorem slice_append_right {a b : List α} :
    slice (a ++ b) (a.length + i) (a.length + j) = slice b i j := by
  unfold slice
  have hc : (a.length + i ≤ a.length + j ∧ a.length + j ≤ (a ++ b).length) ↔
      (i ≤ j ∧ j ≤ b.length) := by
    rw [List.length_append]
    omega
  rw [List.drop_length_add_append, Nat.add_sub_add_left]
  simp only [hc]

/-- The slice of everything is everything. -/
theorem slice_all (h : data.length = j) : slice data 0 j = some data := by
  rw [slice_of_le (Nat.zero_le _) h.ge, List.drop_zero, Nat.sub_zero, List.take_of_length_le h.le]

/-- Truncating a buffer past the end of a slice does not change it. -/
theorem slice_take {n : ℕ} (h : j ≤ n) : slice (data.take n) i j = slice data i j := by
  rcases Nat.le_total n data.length with hn | hn
  · conv_rhs => rw [← List.take_append_drop n data]
    rw [slice_append_left]
    rw [List.length_take]
    omega
  · rw [List.take_of_length_le hn]

/-- The slice of a middle piece of a concatenation is that piece. -/
theorem slice_middle {a b c : List α} :
    slice (a ++ (b ++ c)) a.length (a.length + b.length) = some b := by
  have h := slice_append_right (a := a) (b := b ++ c) (i := 0) (j := b.length)
  rw [Nat.add_zero] at h
  rw [h, slice_append_left le_rfl, slice_all rfl]

/-- A part of a buffer is a slice of it. -/
theorem slice_of_eq_append {a b c : List α} (h : data = a ++ (b ++ c)) (hi : a.length = i) :
    slice data i (i + b.length) = some b := by
  rw [h, ← hi]
  exact slice_middle

/-- A slice of a slice is a slice of the buffer, shifted by the start of the first. -/
theorem slice_slice {k l : ℕ} (h : slice data i j = some s) (hl : l ≤ j - i) :
    slice s k l = slice data (i + k) (i + l) := by
  obtain ⟨hij, hj, rfl⟩ := slice_eq_some_iff.mp h
  have hlen : ((data.drop i).take (j - i)).length = j - i := by
    rw [List.length_take, List.length_drop]
    omega
  rw [slice_take hl]
  have hdata : data.take i ++ data.drop i = data := List.take_append_drop i data
  have hi : (data.take i).length = i := by
    rw [List.length_take]
    omega
  have hright := slice_append_right (a := data.take i) (b := data.drop i) (i := k) (j := l)
  rw [hdata, hi] at hright
  exact hright.symm

end Slice

/-! ### Little-endian numbers -/

/-- The number a list of bytes stands for, least significant byte first. -/
def leNat (bs : List UInt8) : ℕ :=
  Nat.ofDigits 256 (bs.map UInt8.toNat)

@[simp] theorem leNat_nil : leNat [] = 0 := rfl

@[simp] theorem leNat_cons (b : UInt8) (bs : List UInt8) :
    leNat (b :: bs) = b.toNat + 256 * leNat bs := by
  simp [leNat, Nat.ofDigits_cons]

theorem leNat_lt (bs : List UInt8) : leNat bs < 256 ^ bs.length := by
  have h := Nat.ofDigits_lt_base_pow_length (b := 256) (l := bs.map UInt8.toNat)
    (by norm_num) fun x hx => by
      obtain ⟨b, -, rfl⟩ := List.mem_map.mp hx
      exact b.toNat_lt
  simpa [leNat] using h

theorem leNat_append (as bs : List UInt8) :
    leNat (as ++ bs) = leNat as + 256 ^ as.length * leNat bs := by
  simp only [leNat, List.map_append, Nat.ofDigits_append, List.length_map]

/-- Lists of one length that stand for the same number are equal. -/
theorem leNat_inj {as bs : List UInt8} (hlen : as.length = bs.length) (h : leNat as = leNat bs) :
    as = bs := by
  induction as generalizing bs with
  | nil => exact (List.eq_nil_of_length_eq_zero hlen.symm).symm
  | cons a as ih =>
    cases bs with
    | nil => cases hlen
    | cons b bs =>
      have ha := a.toNat_lt
      have hb := b.toNat_lt
      rw [leNat_cons, leNat_cons] at h
      have hhead : a = b := UInt8.toNat_inj.mp (by omega)
      have htail : leNat as = leNat bs := by
        subst hhead
        omega
      rw [hhead, ih (Nat.succ.inj hlen) htail]

/-- The `w` little-endian bytes of `n`. -/
def leBytes : ℕ → ℕ → List UInt8
  | 0, _ => []
  | w + 1, n => UInt8.ofNat n :: leBytes w (n / 256)

@[simp] theorem length_leBytes (w n : ℕ) : (leBytes w n).length = w := by
  induction w generalizing n with
  | zero => rfl
  | succ w ih => rw [leBytes, List.length_cons, ih]

theorem leNat_leBytes (w n : ℕ) : leNat (leBytes w n) = n % 256 ^ w := by
  induction w generalizing n with
  | zero => rw [leBytes, leNat_nil, Nat.pow_zero, Nat.mod_one]
  | succ w ih =>
    rw [leBytes, leNat_cons, ih, UInt8.toNat_ofNat', show 2 ^ 8 = 256 from rfl,
      Nat.pow_succ', Nat.mod_mul]

/-- Encoding then decoding a number that fits is the identity. -/
theorem leNat_leBytes_of_lt {w n : ℕ} (h : n < 256 ^ w) : leNat (leBytes w n) = n := by
  rw [leNat_leBytes, Nat.mod_eq_of_lt h]

end ApfsCore
