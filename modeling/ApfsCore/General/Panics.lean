import ApfsCore.General.Bytes
import ApfsCore.General.Outcome

/-!
# Operations that can panic

A program that must not panic is written here with each of its dangerous operations explicit: a
sum, difference or product that leaves the range of its type, a division by zero, an index or a
slice outside its buffer stops the run with a `Panic`, which is kept apart from the errors the
program returns. Numbers are those of an unsigned type of `w` bits.

Such a program is compared with the plain one, in which the operations are those of the natural
numbers. Where the operands are in range the two agree, operation by operation (`uadd_eq`,
`getAt_eq` and so on), so a program whose operands are always in range *is* the plain program,
with the errors renamed (`Except.mapError`), and panics on no input (`NoPanic.mapError`).
-/

namespace ApfsCore

/-- Why a run panics. -/
inductive Panic where
  | outOfRange
  | overflow
  | divisionByZero
  deriving DecidableEq

/-- How a run stops short of a value: with an error it returns, or with a panic. -/
inductive Stop (ε : Type) where
  | error (e : ε)
  | panic (p : Panic)
  deriving DecidableEq

variable {ε δ α β γ : Type}

/-- The run does not panic. -/
def NoPanic (x : Except (Stop ε) α) : Prop :=
  ∀ p, x ≠ .error (.panic p)

/-! ### Operations -/

/-- Addition in `w` bits. -/
def uadd (w a b : ℕ) : Except (Stop ε) ℕ :=
  if a + b < 2 ^ w then .ok (a + b) else .error (.panic .overflow)

/-- Subtraction of unsigned numbers. -/
def usub (a b : ℕ) : Except (Stop ε) ℕ :=
  if b ≤ a then .ok (a - b) else .error (.panic .overflow)

/-- Multiplication in `w` bits. -/
def umul (w a b : ℕ) : Except (Stop ε) ℕ :=
  if a * b < 2 ^ w then .ok (a * b) else .error (.panic .overflow)

/-- Division. -/
def udiv (a b : ℕ) : Except (Stop ε) ℕ :=
  if b = 0 then .error (.panic .divisionByZero) else .ok (a / b)

/-- Remainder. -/
def urem (a b : ℕ) : Except (Stop ε) ℕ :=
  if b = 0 then .error (.panic .divisionByZero) else .ok (a % b)

/-- Shift to the left in `w` bits, by less than `w`. -/
def ushl (w a n : ℕ) : Except (Stop ε) ℕ :=
  if n < w then .ok ((a <<< n) % 2 ^ w) else .error (.panic .overflow)

/-- `l[i]`. -/
def getAt (l : List α) (i : ℕ) : Except (Stop ε) α :=
  match l[i]? with
  | some a => .ok a
  | none => .error (.panic .outOfRange)

/-- `l[i..j]`. -/
def getRange (l : List α) (i j : ℕ) : Except (Stop ε) (List α) :=
  match slice l i j with
  | some s => .ok s
  | none => .error (.panic .outOfRange)

/-- `copy_from_slice` into a buffer of `n` elements. -/
def copyFrom (n : ℕ) (s : List α) : Except (Stop ε) (List α) :=
  if s.length = n then .ok s else .error (.panic .outOfRange)

section Operations

variable {w a b n i j : ℕ} {l s : List α}

theorem uadd_eq (h : a + b < 2 ^ w) : (uadd w a b : Except (Stop ε) ℕ) = .ok (a + b) :=
  if_pos h

theorem usub_eq (h : b ≤ a) : (usub a b : Except (Stop ε) ℕ) = .ok (a - b) :=
  if_pos h

theorem umul_eq (h : a * b < 2 ^ w) : (umul w a b : Except (Stop ε) ℕ) = .ok (a * b) :=
  if_pos h

theorem udiv_eq (h : b ≠ 0) : (udiv a b : Except (Stop ε) ℕ) = .ok (a / b) :=
  if_neg h

theorem urem_eq (h : b ≠ 0) : (urem a b : Except (Stop ε) ℕ) = .ok (a % b) :=
  if_neg h

theorem ushl_eq (h : n < w) (ha : a <<< n < 2 ^ w) :
    (ushl w a n : Except (Stop ε) ℕ) = .ok (a <<< n) := by
  rw [ushl, if_pos h, Nat.mod_eq_of_lt ha]

theorem getAt_eq {x : α} (h : l[i]? = some x) : (getAt l i : Except (Stop ε) α) = .ok x := by
  rw [getAt, h]

theorem getRange_eq (h : slice l i j = some s) :
    (getRange l i j : Except (Stop ε) (List α)) = .ok s := by
  rw [getRange, h]

theorem copyFrom_eq (h : s.length = n) : (copyFrom n s : Except (Stop ε) (List α)) = .ok s :=
  if_pos h

/-- Two branchings that do not fail are compared branch by branch. -/
theorem ite_eq_ok {c : Prop} [Decidable c] {x y : Except δ α} {a b : α} (hpos : c → x = .ok a)
    (hneg : ¬c → y = .ok b) : (if c then x else y) = .ok (if c then a else b) := by
  by_cases hc : c
  · rw [if_pos hc, if_pos hc, hpos hc]
  · rw [if_neg hc, if_neg hc, hneg hc]

end Operations

/-! ### Renaming errors -/

section Rename

variable {φ : δ → Stop ε}

@[simp] theorem mapError_ok (a : α) : (Except.ok a : Except δ α).mapError φ = .ok a := rfl

@[simp] theorem mapError_error (d : δ) :
    (Except.error d : Except δ α).mapError φ = .error (φ d) := rfl

theorem mapError_map (x : Except δ α) (f : α → β) :
    (f <$> x).mapError φ = f <$> x.mapError φ := by
  cases x with
  | error d => rfl
  | ok a => rfl

/-- Two sequences of steps are compared step by step: the second step matters only where the
first succeeds. -/
theorem bind_eq_mapError {x : Except (Stop ε) α} {x' : Except δ α} {f : α → Except (Stop ε) β}
    {f' : α → Except δ β} (hx : x = x'.mapError φ)
    (hf : ∀ a, x' = .ok a → f a = (f' a).mapError φ) :
    (x >>= f) = (x' >>= f').mapError φ := by
  cases x' with
  | error d => rw [hx, mapError_error, error_bind, error_bind, mapError_error]
  | ok a => rw [hx, mapError_ok, ok_bind, ok_bind, hf a rfl]

/-- Two branchings are compared branch by branch. -/
theorem ite_eq_mapError {c : Prop} [Decidable c] {x y : Except (Stop ε) α} {x' y' : Except δ α}
    (hpos : c → x = x'.mapError φ) (hneg : ¬c → y = y'.mapError φ) :
    (if c then x else y) = (if c then x' else y').mapError φ := by
  by_cases hc : c
  · rw [if_pos hc, if_pos hc, hpos hc]
  · rw [if_neg hc, if_neg hc, hneg hc]

/-- A fold of renamed steps is the renamed fold, also when the steps are known to be alike only
where a property holds, which they keep. -/
theorem foldlM_mapError {f : α → γ → Except (Stop ε) α} {f' : α → γ → Except δ α} {P : α → Prop}
    {l : List γ} (hstep : ∀ a, ∀ c ∈ l, P a → f a c = (f' a c).mapError φ)
    (hkeep : ∀ a, ∀ c ∈ l, ∀ b, P a → f' a c = .ok b → P b) {a : α} (ha : P a) :
    l.foldlM f a = (l.foldlM f' a).mapError φ := by
  induction l generalizing a with
  | nil => rfl
  | cons c l ih =>
    rw [List.foldlM_cons, List.foldlM_cons]
    refine bind_eq_mapError (hstep a c List.mem_cons_self ha) fun b hb => ?_
    exact ih (fun a c' hc' => hstep a c' (List.mem_cons_of_mem c hc'))
      (fun a c' hc' => hkeep a c' (List.mem_cons_of_mem c hc'))
      (hkeep a c List.mem_cons_self b ha hb)

/-- A renamed program panics only where the renaming makes an error a panic. -/
theorem NoPanic.mapError {x : Except δ α} (h : ErrorsIn (fun d => ∃ e, φ d = .error e) x) :
    NoPanic (x.mapError φ) := by
  intro p hp
  cases x with
  | ok a => cases hp
  | error d =>
    obtain ⟨e, he⟩ := h d rfl
    rw [mapError_error, he] at hp
    cases hp

end Rename

end ApfsCore
