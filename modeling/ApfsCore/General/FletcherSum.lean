import Mathlib.Algebra.BigOperators.Group.List.Basic
import Mathlib.Algebra.BigOperators.Intervals
import Mathlib.Data.Int.ModEq
import Mathlib.Tactic.Ring

/-!
# Double running sums modulo `m`

A Fletcher checksum keeps two sums modulo `m`: the sum of the words read, and the sum of
those partial sums. `fletcherFold_eq` gives the closed form: the second sum weights each word
by the number of words from it to the end (`weightedSum`). These consequences are used:

* appending words leaves both sums unchanged exactly when the appended words, and their
  weighted sum together with the shifted weight of the earlier words, vanish modulo `m`
  (`fletcherFold_append_eq_iff`);
* the two check words a checksum is folded into determine both sums (`fletcherCheck_inj`), and
  read after the words they bring both back to zero (`fletcherFold_check`);
* no step forgets anything of the sums it starts from (`fletcherFold_inj`), so two lists that
  differ in two neighbouring words only have equal sums exactly when these words are congruent
  (`modEq_of_fletcherFold_eq`).
-/

namespace ApfsCore

/-- One word of the double sum. -/
def fletcherStep (m : ℕ) (s : ℕ × ℕ) (v : ℕ) : ℕ × ℕ :=
  ((s.1 + v) % m, (s.2 + (s.1 + v) % m) % m)

/-- The double sum of a list of words, from a pair of sums on. -/
def fletcherFold (m : ℕ) (s : ℕ × ℕ) (ws : List ℕ) : ℕ × ℕ :=
  ws.foldl (fletcherStep m) s

/-- The sum of the words, each weighted by the number of words from it to the end. -/
def weightedSum : List ℕ → ℕ
  | [] => 0
  | w :: ws => (ws.length + 1) * w + weightedSum ws

/-- The two check words: they bring both sums back to zero modulo `m`. -/
def fletcherCheck (m : ℕ) (s : ℕ × ℕ) : ℕ × ℕ :=
  let lo := m - (s.1 + s.2) % m
  (lo, m - (s.1 + lo) % m)

variable {m : ℕ}

/-- **Closed form** of the double sum, from sums reduced modulo `m`. -/
theorem fletcherFold_eq {s : ℕ × ℕ} (h₁ : s.1 < m) (h₂ : s.2 < m) (ws : List ℕ) :
    fletcherFold m s ws =
      ((s.1 + ws.sum) % m, (s.2 + ws.length * s.1 + weightedSum ws) % m) := by
  have hm : 0 < m := by omega
  induction ws generalizing s with
  | nil => simp [fletcherFold, weightedSum, Nat.mod_eq_of_lt h₁, Nat.mod_eq_of_lt h₂]
  | cons w ws ih =>
    -- the induction hypothesis is used from the sums after the first word, again reduced
    have hstep : fletcherFold m s (w :: ws) = fletcherFold m (fletcherStep m s w) ws := rfl
    rw [hstep, ih (Nat.mod_lt _ hm) (Nat.mod_lt _ hm)]
    simp only [fletcherStep, List.sum_cons, List.length_cons, weightedSum]
    refine Prod.ext ?_ ?_
    · have h : (s.1 + w) % m + ws.sum ≡ s.1 + w + ws.sum [MOD m] :=
        (Nat.mod_modEq _ _).add_right _
      exact h.trans (by rw [Nat.add_assoc])
    · have hlo : (s.1 + w) % m ≡ s.1 + w [MOD m] := Nat.mod_modEq _ _
      have hhi : (s.2 + (s.1 + w) % m) % m ≡ s.2 + (s.1 + w) [MOD m] :=
        (Nat.mod_modEq _ _).trans (hlo.add_left _)
      have h := (hhi.add (hlo.mul_left ws.length)).add_right (weightedSum ws)
      refine h.trans ?_
      have : s.2 + (s.1 + w) + ws.length * (s.1 + w) + weightedSum ws
          = s.2 + (ws.length + 1) * s.1 + ((ws.length + 1) * w + weightedSum ws) := by ring
      rw [this]

theorem fletcherFold_append (s : ℕ × ℕ) (ws vs : List ℕ) :
    fletcherFold m s (ws ++ vs) = fletcherFold m (fletcherFold m s ws) vs :=
  List.foldl_append

theorem fletcherFold_lt (hm : 0 < m) (ws : List ℕ) :
    (fletcherFold m (0, 0) ws).1 < m ∧ (fletcherFold m (0, 0) ws).2 < m := by
  rw [fletcherFold_eq hm hm]
  exact ⟨Nat.mod_lt _ hm, Nat.mod_lt _ hm⟩

/-- Leading zero words leave the double sum at zero. -/
theorem fletcherFold_zero_cons (ws : List ℕ) :
    fletcherFold m (0, 0) (0 :: ws) = fletcherFold m (0, 0) ws := by
  simp [fletcherFold, fletcherStep]

theorem weightedSum_replicate_zero (k : ℕ) : weightedSum (List.replicate k 0) = 0 := by
  induction k with
  | zero => rfl
  | succ k ih => simp [List.replicate_succ, weightedSum, ih]

/-- A residue class is not moved by adding exactly the multiples of `m`. -/
private theorem mod_add_eq_iff {a b : ℕ} : (a + b) % m = a % m ↔ m ∣ b := by
  have h : (a + b) % m = (a + 0) % m ↔ b ≡ 0 [MOD m] := by
    constructor
    · exact fun h => Nat.ModEq.add_left_cancel' a h
    · exact fun h => h.add_left a
  rw [Nat.add_zero] at h
  rw [h, Nat.modEq_zero_iff_dvd]

/-- **Neutral tails.** Appending `vs` leaves the double sum of `ws` unchanged exactly when
`vs` sums to zero modulo `m`, and so does its weighted sum together with the weight it adds
to `ws`. -/
theorem fletcherFold_append_eq_iff (hm : 0 < m) (ws vs : List ℕ) :
    fletcherFold m (0, 0) (ws ++ vs) = fletcherFold m (0, 0) ws ↔
      m ∣ vs.sum ∧ m ∣ vs.length * ws.sum + weightedSum vs := by
  obtain ⟨h₁, h₂⟩ := fletcherFold_lt hm ws
  have hfst : (fletcherFold m (0, 0) ws).1 = ws.sum % m := by
    rw [fletcherFold_eq hm hm]
    simp
  rw [fletcherFold_append, fletcherFold_eq h₁ h₂, Prod.ext_iff]
  refine and_congr ?_ ?_
  · conv_lhs => rhs; rw [← Nat.mod_eq_of_lt h₁]
    exact mod_add_eq_iff
  · conv_lhs => rhs; rw [← Nat.mod_eq_of_lt h₂]
    rw [Nat.add_assoc, mod_add_eq_iff, hfst]
    have h : vs.length * (ws.sum % m) + weightedSum vs ≡
        vs.length * ws.sum + weightedSum vs [MOD m] :=
      ((Nat.mod_modEq _ _).mul_left _).add_right _
    exact h.dvd_iff dvd_rfl

/-- The check words determine the two sums. -/
theorem fletcherCheck_inj {s t : ℕ × ℕ} (hs₁ : s.1 < m) (hs₂ : s.2 < m) (ht₁ : t.1 < m)
    (ht₂ : t.2 < m) (h : fletcherCheck m s = fletcherCheck m t) : s = t := by
  have hm : 0 < m := by omega
  simp only [fletcherCheck, Prod.mk.injEq] at h
  obtain ⟨hlo, hhi⟩ := h
  have hsum : (s.1 + s.2) % m = (t.1 + t.2) % m := by
    have := Nat.mod_lt (s.1 + s.2) hm
    have := Nat.mod_lt (t.1 + t.2) hm
    omega
  rw [← hlo] at hhi
  -- the low words are equal, so the high words differ by the first sums alone
  have hfst : s.1 = t.1 := by
    have hmod : (s.1 + (m - (s.1 + s.2) % m)) % m = (t.1 + (m - (s.1 + s.2) % m)) % m := by
      have := Nat.mod_lt (s.1 + (m - (s.1 + s.2) % m)) hm
      have := Nat.mod_lt (t.1 + (m - (s.1 + s.2) % m)) hm
      omega
    exact Nat.ModEq.eq_of_lt_of_lt (Nat.ModEq.add_right_cancel' _ hmod) hs₁ ht₁
  refine Prod.ext hfst ?_
  rw [hfst] at hsum
  exact Nat.ModEq.eq_of_lt_of_lt (Nat.ModEq.add_left_cancel' _ hsum) hs₂ ht₂

/-! ### Words by number -/

/-- The words numbered `i` to `i + k - 1`, summed. -/
theorem sum_map_range' (f : ℕ → ℕ) (i k : ℕ) :
    ((List.range' i k).map f).sum = ∑ j ∈ Finset.Ico i (i + k), f j := by
  induction k generalizing i with
  | zero => simp
  | succ k ih =>
    have hend : i + (k + 1) = i + 1 + k := by omega
    rw [List.range'_succ, List.map_cons, List.sum_cons, ih, hend,
      Finset.sum_eq_sum_Ico_succ_bot (a := i) (by omega)]

/-- The weight of word `j` is the number of words from it to the end. -/
theorem weightedSum_map_range' (f : ℕ → ℕ) (i k : ℕ) :
    weightedSum ((List.range' i k).map f) = ∑ j ∈ Finset.Ico i (i + k), (i + k - j) * f j := by
  induction k generalizing i with
  | zero => simp [weightedSum]
  | succ k ih =>
    have hend : i + (k + 1) = i + 1 + k := by omega
    have hweight : i + 1 + k - i = k + 1 := by omega
    rw [List.range'_succ, List.map_cons, weightedSum, ih, hend,
      Finset.sum_eq_sum_Ico_succ_bot (a := i) (by omega), List.length_map, List.length_range',
      hweight]

/-! ### Check words -/

theorem fletcherCheck_mem (hm : 0 < m) (s : ℕ × ℕ) :
    (1 ≤ (fletcherCheck m s).1 ∧ (fletcherCheck m s).1 ≤ m) ∧
      1 ≤ (fletcherCheck m s).2 ∧ (fletcherCheck m s).2 ≤ m := by
  simp only [fletcherCheck]
  have hlo := Nat.mod_lt (s.1 + s.2) hm
  have hhi := Nat.mod_lt (s.1 + (m - (s.1 + s.2) % m)) hm
  omega

/-- What is left to the next multiple completes a number to one. -/
private theorem dvd_add_sub_mod (hm : 0 < m) (a : ℕ) : m ∣ a + (m - a % m) := by
  have hlt := Nat.mod_lt a hm
  have hdiv := Nat.div_add_mod a m
  exact ⟨a / m + 1, by rw [Nat.mul_add]; omega⟩

/-- The check words bring both sums back to zero. -/
theorem fletcherFold_check {s : ℕ × ℕ} (h₁ : s.1 < m) (h₂ : s.2 < m) :
    fletcherFold m s [(fletcherCheck m s).1, (fletcherCheck m s).2] = (0, 0) := by
  have hm : 0 < m := by omega
  have hlo : m ∣ s.1 + s.2 + (fletcherCheck m s).1 := dvd_add_sub_mod hm _
  have hhi : m ∣ s.1 + (fletcherCheck m s).1 + (fletcherCheck m s).2 := dvd_add_sub_mod hm _
  generalize fletcherCheck m s = check at hlo hhi ⊢
  have hfst : s.1 + [check.1, check.2].sum = s.1 + check.1 + check.2 := by
    rw [List.sum_cons, List.sum_singleton, Nat.add_assoc]
  -- the second sum splits into the two that vanish
  have hsnd : s.2 + [check.1, check.2].length * s.1 + weightedSum [check.1, check.2] =
      s.1 + s.2 + check.1 + (s.1 + check.1 + check.2) := by
    simp only [weightedSum, List.length_cons, List.length_nil]
    ring
  rw [fletcherFold_eq h₁ h₂, hfst, hsnd]
  exact Prod.ext (Nat.mod_eq_zero_of_dvd hhi) (Nat.mod_eq_zero_of_dvd (Nat.dvd_add hlo hhi))

/-! ### Words that differ -/

/-- The double sums after a list determine those before it. -/
theorem fletcherFold_inj {s t : ℕ × ℕ} (hs₁ : s.1 < m) (hs₂ : s.2 < m) (ht₁ : t.1 < m)
    (ht₂ : t.2 < m) {ws : List ℕ} (h : fletcherFold m s ws = fletcherFold m t ws) : s = t := by
  rw [fletcherFold_eq hs₁ hs₂, fletcherFold_eq ht₁ ht₂, Prod.mk.injEq] at h
  obtain ⟨hlo, hhi⟩ := h
  have hfst : s.1 = t.1 :=
    Nat.ModEq.eq_of_lt_of_lt (Nat.ModEq.add_right_cancel' _ hlo) hs₁ ht₁
  rw [hfst] at hhi
  have hsnd := Nat.ModEq.add_right_cancel' _ (Nat.ModEq.add_right_cancel' _ hhi)
  exact Prod.ext hfst (Nat.ModEq.eq_of_lt_of_lt hsnd hs₂ ht₂)

/-- **Neighbouring words.** Two lists that differ in two neighbouring words only have equal
double sums just when each of the two is congruent to the one in its place. -/
theorem modEq_of_fletcherFold_eq (hm : 0 < m) {pre post : List ℕ} {x y x' y' : ℕ}
    (h : fletcherFold m (0, 0) (pre ++ [x, y] ++ post) =
      fletcherFold m (0, 0) (pre ++ [x', y'] ++ post)) :
    x ≡ x' [MOD m] ∧ y ≡ y' [MOD m] := by
  obtain ⟨h₁, h₂⟩ := fletcherFold_lt hm pre
  obtain ⟨hx₁, hx₂⟩ := fletcherFold_lt hm (pre ++ [x, y])
  obtain ⟨hy₁, hy₂⟩ := fletcherFold_lt hm (pre ++ [x', y'])
  rw [fletcherFold_append, fletcherFold_append (0, 0) (pre ++ [x', y'])] at h
  -- the words after the two can be dropped, those before them are a common start
  have hpair := fletcherFold_inj hx₁ hx₂ hy₁ hy₂ h
  rw [fletcherFold_append, fletcherFold_append, fletcherFold_eq h₁ h₂, fletcherFold_eq h₁ h₂,
    Prod.mk.injEq] at hpair
  obtain ⟨hlo, hhi⟩ := hpair
  have hsum : x + y ≡ x' + y' [MOD m] := by
    have hlo' := Nat.ModEq.add_left_cancel' _ hlo
    simpa using hlo'
  have hweighted : 2 * x + y ≡ 2 * x' + y' [MOD m] := by
    have hhi' := Nat.ModEq.add_left_cancel' _ hhi
    simpa [weightedSum] using hhi'
  have hx : x ≡ x' [MOD m] := by
    refine Nat.ModEq.add_right_cancel hsum ?_
    have hl : x + (x + y) = 2 * x + y := by ring
    have hr : x' + (x' + y') = 2 * x' + y' := by ring
    rw [hl, hr]
    exact hweighted
  exact ⟨hx, Nat.ModEq.add_left_cancel hx hsum⟩

end ApfsCore
