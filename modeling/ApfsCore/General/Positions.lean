import Mathlib.Algebra.BigOperators.Group.Finset.Basic
import Mathlib.Tactic.Common

/-!
# Numbers by position

A number is divided by the size `k` of a chunk: the quotient is its chunk, the remainder its
place within the chunk. Each chunk and place below `k` belong to one number (`eq_of_divMod`), so
counting the numbers below a bound is counting the places below it chunk by chunk
(`card_filter_divMod`), the last chunk included where the bound cuts it.
-/

namespace ApfsCore

theorem mul_add_div_of_lt {k c i : ℕ} (hi : i < k) : (c * k + i) / k = c := by
  have hk : 0 < k := Nat.zero_lt_of_lt hi
  rw [Nat.add_comm, Nat.add_mul_div_right i c hk, Nat.div_eq_of_lt hi, Nat.zero_add]

theorem mul_add_mod_of_lt {k c i : ℕ} (hi : i < k) : (c * k + i) % k = i := by
  rw [Nat.add_comm, Nat.add_mul_mod_self_right, Nat.mod_eq_of_lt hi]

/-- A number is determined by its chunk and its place. -/
theorem eq_of_divMod {k c i x : ℕ} (hc : x / k = c) (hi : x % k = i) : x = c * k + i := by
  have hx := Nat.div_add_mod x k
  rw [hc, hi, Nat.mul_comm] at hx
  exact hx.symm

/-- The numbers below a multiple of `k` lie in the chunks below it. -/
theorem div_lt_of_lt_mul {k m n x : ℕ} (hx : x < n) (hn : n ≤ m * k) : x / k < m :=
  Nat.div_lt_of_lt_mul (lt_of_lt_of_le hx (Nat.mul_comm m k ▸ hn))

/-- **Counting chunk by chunk.** The numbers below `n` with a property of their chunk and place
are counted by the places with that property, over the chunks. -/
theorem card_filter_divMod {n k m : ℕ} (hk : 0 < k) (hn : n ≤ m * k) (P : ℕ → ℕ → Bool) :
    ((Finset.range n).filter fun x => P (x / k) (x % k)).card =
      ∑ c ∈ Finset.range m, ((Finset.range k).filter fun i => c * k + i < n ∧ P c i).card := by
  have hmaps : Set.MapsTo (fun x => x / k)
      ((Finset.range n).filter fun x => P (x / k) (x % k) : Finset ℕ)
      (Finset.range m : Finset ℕ) := by
    intro x hx
    rw [Finset.mem_coe, Finset.mem_filter, Finset.mem_range] at hx
    exact Finset.mem_coe.mpr (Finset.mem_range.mpr (div_lt_of_lt_mul hx.1 hn))
  rw [Finset.card_eq_sum_card_fiberwise hmaps]
  refine Finset.sum_congr rfl fun c _ => ?_
  -- the numbers of one chunk correspond to their places
  refine Finset.card_nbij' (fun x => x % k) (fun i => c * k + i) ?_ ?_ ?_ ?_
  · intro x hx
    simp only [Finset.coe_filter, Finset.mem_filter, Finset.mem_range, Set.mem_ofPred_eq] at hx ⊢
    obtain ⟨⟨hlt, hP⟩, hc⟩ := hx
    rw [← eq_of_divMod hc rfl, ← hc]
    exact ⟨Nat.mod_lt x hk, hlt, hP⟩
  · intro i hi
    simp only [Finset.coe_filter, Finset.mem_filter, Finset.mem_range, Set.mem_ofPred_eq] at hi ⊢
    rw [mul_add_div_of_lt hi.1, mul_add_mod_of_lt hi.1]
    exact ⟨hi.2, rfl⟩
  · intro x hx
    simp only [Finset.coe_filter, Finset.mem_filter, Set.mem_ofPred_eq] at hx
    exact (eq_of_divMod hx.2 rfl).symm
  · intro i hi
    simp only [Finset.coe_filter, Finset.mem_range, Set.mem_ofPred_eq] at hi
    exact mul_add_mod_of_lt hi.1

end ApfsCore
