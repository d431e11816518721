import Mathlib.Data.List.Basic
import Mathlib.Tactic.Basic

/-!
# Splitting a list into chunks

`chunksOf n l` cuts a list into consecutive pieces of `n` elements, the last one shorter, and
no piece at all for the empty list. The recursion is on the number of pieces (`chunksFrom`),
which is the quotient rounded up (`chunkCount_bounds`).
-/

namespace ApfsCore

universe u

variable {α : Type u}

/-- The first `k` pieces of `n` elements. -/
def chunksFrom (n : ℕ) : ℕ → List α → List (List α)
  | 0, _ => []
  | k + 1, l => l.take n :: chunksFrom n k (l.drop n)

/-- The number of pieces of `n` elements that `len` elements make. -/
def chunkCount (n len : ℕ) : ℕ :=
  (len + (n - 1)) / n

/-- The pieces of `n` elements of a list, the last one possibly shorter. -/
def chunksOf (n : ℕ) (l : List α) : List (List α) :=
  chunksFrom n (chunkCount n l.length) l

@[simp] theorem length_chunksFrom (n k : ℕ) (l : List α) : (chunksFrom n k l).length = k := by
  induction k generalizing l with
  | zero => rfl
  | succ k ih => rw [chunksFrom, List.length_cons, ih]

/-- Enough pieces put together are the list. -/
theorem flatten_chunksFrom {n k : ℕ} {l : List α} (h : l.length ≤ k * n) :
    (chunksFrom n k l).flatten = l := by
  induction k generalizing l with
  | zero =>
    have hnil : l = [] := List.eq_nil_of_length_eq_zero (by omega)
    rw [hnil]
    rfl
  | succ k ih =>
    -- one piece less has to cover what is left after the first
    have hdrop : (l.drop n).length ≤ k * n := by
      rw [List.length_drop]
      rw [Nat.succ_mul] at h
      omega
    rw [chunksFrom, List.flatten_cons, ih hdrop, List.take_append_drop]

/-- The pieces cover the list, and one piece less would not. -/
theorem chunkCount_bounds {n : ℕ} (hn : 0 < n) (len : ℕ) :
    len ≤ chunkCount n len * n ∧ chunkCount n len * n < len + n := by
  have hdiv := Nat.div_add_mod (len + (n - 1)) n
  have hmod := Nat.mod_lt (len + (n - 1)) hn
  have hcomm : chunkCount n len * n = n * ((len + (n - 1)) / n) := Nat.mul_comm _ _
  omega

/-- **The chunks of a list put together are the list.** -/
theorem flatten_chunksOf {n : ℕ} (hn : 0 < n) (l : List α) : (chunksOf n l).flatten = l :=
  flatten_chunksFrom (chunkCount_bounds hn l.length).1

end ApfsCore
