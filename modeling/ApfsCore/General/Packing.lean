import Mathlib.Algebra.BigOperators.Group.List.Basic
import Mathlib.Algebra.GroupWithZero.Nat
import Mathlib.Order.Nat

/-!
# Pieces packed at aligned offsets

A format that stores a list of pieces one after the other, each padded to a multiple of
`align`, stores no offsets: a reader finds a piece only by adding up the padded sizes of the
earlier ones (`startOf`). `Packed` says that an area is laid out so. A reader of an area that has
been cut short stops at the first piece of which it needs more than is left; `fitting` are the
pieces it meets, and `exists_fitting` says which they are: exactly those whose needed bytes
lie inside the cut.
-/

namespace ApfsCore

universe u

/-- The least multiple of `align` that is not below `n`. -/
def roundUp (align n : ℕ) : ℕ :=
  (n + (align - 1)) / align * align

theorem le_roundUp {align : ℕ} (h : 0 < align) (n : ℕ) : n ≤ roundUp align n := by
  have hdiv := Nat.div_add_mod (n + (align - 1)) align
  have hlt := Nat.mod_lt (n + (align - 1)) h
  rw [Nat.mul_comm] at hdiv
  rw [roundUp]
  omega

/-- An area that holds the pieces in order, each but the last padded to a multiple of `align`.
Nothing is said of the padding, nor of what follows the last piece. -/
inductive Packed {α : Type u} (align : ℕ) : List (List α) → List α → Prop
  | nil (tail : List α) : Packed align [] tail
  | last (piece tail : List α) : Packed align [piece] (piece ++ tail)
  | cons {piece pad rest : List α} {pieces : List (List α)} :
      (piece ++ pad).length = roundUp align piece.length → Packed align pieces rest →
        Packed align (piece :: pieces) (piece ++ (pad ++ rest))

section Pieces

variable {β : Type u} (align : ℕ) (size need : β → ℕ)

/-- Where piece number `i` starts. -/
def startOf (base : ℕ) (pieces : List β) (i : ℕ) : ℕ :=
  base + ((pieces.take i).map fun p => roundUp align (size p)).sum

theorem startOf_zero (base : ℕ) (pieces : List β) : startOf align size base pieces 0 = base :=
  rfl

theorem startOf_cons_succ (base : ℕ) (p : β) (pieces : List β) (i : ℕ) :
    startOf align size base (p :: pieces) (i + 1) =
      startOf align size (base + roundUp align (size p)) pieces i := by
  rw [startOf, startOf, List.take_succ_cons, List.map_cons, List.sum_cons, Nat.add_assoc]

theorem le_startOf (base : ℕ) (pieces : List β) (i : ℕ) :
    base ≤ startOf align size base pieces i :=
  Nat.le_add_right _ _

/-- The pieces met from `base` on before one of which more than the first `n` bytes are
needed. -/
def fitting (n : ℕ) : ℕ → List β → List β
  | _, [] => []
  | base, p :: pieces =>
    if base + need p ≤ n then p :: fitting n (base + roundUp align (size p)) pieces else []

/-- The first `k` pieces are exactly those whose needed bytes end by `n`. -/
structure FirstFitting (n base : ℕ) (pieces : List β) (k : ℕ) : Prop where
  le_length : k ≤ pieces.length
  lt_iff : ∀ i p, pieces[i]? = some p → (i < k ↔ startOf align size base pieces i + need p ≤ n)

variable {align size need}

/-- The pieces met are those that fit, since no piece starts before an earlier one ends. -/
theorem exists_fitting (halign : 0 < align) (hneed : ∀ p, need p ≤ size p) (n base : ℕ)
    (pieces : List β) :
    ∃ k, FirstFitting align size need n base pieces k ∧
      fitting align size need n base pieces = pieces.take k := by
  induction pieces generalizing base with
  | nil => exact ⟨0, ⟨le_rfl, fun i p h => by simp at h⟩, rfl⟩
  | cons p pieces ih =>
    by_cases hfit : base + need p ≤ n
    · obtain ⟨k, hk, htake⟩ := ih (base + roundUp align (size p))
      refine ⟨k + 1, ⟨Nat.succ_le_succ hk.le_length, fun i q hq => ?_⟩, ?_⟩
      · cases i with
        | zero =>
          rw [List.getElem?_cons_zero, Option.some.injEq] at hq
          subst hq
          exact iff_of_true (Nat.succ_pos k) hfit
        | succ i =>
          rw [List.getElem?_cons_succ] at hq
          rw [startOf_cons_succ, Nat.succ_lt_succ_iff]
          exact hk.lt_iff i q hq
      · rw [fitting, if_pos hfit, htake, List.take_succ_cons]
    · refine ⟨0, ⟨Nat.zero_le _, fun i q hq => iff_of_false (Nat.not_lt_zero i) ?_⟩, ?_⟩
      · cases i with
        | zero =>
          rw [List.getElem?_cons_zero, Option.some.injEq] at hq
          subst hq
          exact hfit
        | succ i =>
          have hsize := (hneed p).trans (le_roundUp halign (size p))
          have hstart := le_startOf align size (base + roundUp align (size p)) pieces i
          rw [startOf_cons_succ]
          omega
      · rw [fitting, if_neg hfit, List.take_zero]

/-- Nothing is cut off an area that reaches to the end of what is needed of the last piece. -/
theorem fitting_eq_self {n base : ℕ} {pieces : List β}
    (h : ∀ i p, pieces[i]? = some p → startOf align size base pieces i + need p ≤ n) :
    fitting align size need n base pieces = pieces := by
  induction pieces generalizing base with
  | nil => rfl
  | cons p pieces ih =>
    have hfirst : base + need p ≤ n := h 0 p rfl
    have hrest : fitting align size need n (base + roundUp align (size p)) pieces = pieces := by
      refine ih fun i q hq => ?_
      rw [← startOf_cons_succ]
      exact h (i + 1) q hq
    rw [fitting, if_pos hfirst, hrest]

end Pieces

section Area

variable {α β : Type u} {align : ℕ}

/-- A packed area starts with its first piece, and the others are packed after its padding. -/
theorem Packed.exists_append {piece area : List α} {pieces : List (List α)}
    (h : Packed align (piece :: pieces) area) :
    ∃ after, area = piece ++ after ∧
      (pieces = [] ∨ ∃ pad rest, after = pad ++ rest ∧
        (piece ++ pad).length = roundUp align piece.length ∧ Packed align pieces rest) := by
  cases h with
  | last _ tail => exact ⟨tail, rfl, .inl rfl⟩
  | cons hpad hrest => exact ⟨_, rfl, .inr ⟨_, _, rfl, hpad, hrest⟩⟩

/-- Every piece of a packed area lies in it. -/
theorem Packed.end_le {f : β → List α} {pieces : List β} {area : List α}
    (h : Packed align (pieces.map f) area) (base : ℕ) {i : ℕ} {p : β}
    (hi : pieces[i]? = some p) :
    startOf align (fun q => (f q).length) base pieces i + (f p).length ≤ base + area.length := by
  induction pieces generalizing base area i with
  | nil => cases hi
  | cons q pieces ih =>
    obtain ⟨after, rfl, hnext⟩ := h.exists_append
    cases i with
    | zero =>
      rw [List.getElem?_cons_zero, Option.some.injEq] at hi
      subst hi
      rw [startOf_zero, List.length_append]
      omega
    | succ i =>
      rw [List.getElem?_cons_succ] at hi
      rcases hnext with hnil | ⟨pad, rest, rfl, hpad, hrest⟩
      · rw [List.map_eq_nil_iff] at hnil
        subst hnil
        cases hi
      · have hend := ih hrest (base + roundUp align (f q).length) hi
        rw [startOf_cons_succ]
        simp only [List.length_append] at hpad ⊢
        omega

end Area

end ApfsCore
