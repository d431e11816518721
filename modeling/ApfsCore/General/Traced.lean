import ApfsCore.General.Outcome

/-!
# Computations that keep a log

A `Traced ι ε α` is a fallible computation together with the list of what it has done, in order.
The log survives a failure, so it also says what a run did before it stopped. Forgetting the log
(`Traced.outcome`) commutes with sequencing (`outcome_bind`), so a traced program is compared with
the plain one step by step; what holds of every entry of the log is collected along a program in
the same way (`Logs`).
-/

namespace ApfsCore

/-- A fallible computation with the log of what it did. -/
structure Traced (ι ε α : Type) where
  log : List ι
  outcome : Except ε α

variable {ι ε α β γ : Type}

namespace Traced

/-- Sequencing: nothing is done after a failure. -/
def bind (x : Traced ι ε α) (f : α → Traced ι ε β) : Traced ι ε β :=
  match x.outcome with
  | .ok a => ⟨x.log ++ (f a).log, (f a).outcome⟩
  | .error e => ⟨x.log, .error e⟩

instance : Monad (Traced ι ε) where
  pure a := ⟨[], .ok a⟩
  bind := bind

/-- A computation that leaves no trace. -/
def lift (x : Except ε α) : Traced ι ε α :=
  ⟨[], x⟩

/-- Note that something is done. -/
def note (i : ι) : Traced ι ε Unit :=
  ⟨[i], .ok ()⟩

@[simp] theorem outcome_pure (a : α) : (Pure.pure a : Traced ι ε α).outcome = .ok a := rfl

@[simp] theorem outcome_lift (x : Except ε α) : (lift x : Traced ι ε α).outcome = x := rfl

@[simp] theorem outcome_note (i : ι) : (note i : Traced ι ε Unit).outcome = .ok () := rfl

@[simp] theorem log_note (i : ι) : (note i : Traced ι ε Unit).log = [i] := rfl

/-- The outcome of a sequence is the sequence of the outcomes. -/
theorem outcome_bind (x : Traced ι ε α) (f : α → Traced ι ε β) :
    (x >>= f).outcome = x.outcome >>= fun a => (f a).outcome := by
  change (bind x f).outcome = _
  rw [bind]
  cases x.outcome with
  | ok a => rfl
  | error e => rfl

theorem log_bind_ok {x : Traced ι ε α} {a : α} (h : x.outcome = .ok a) (f : α → Traced ι ε β) :
    (x >>= f).log = x.log ++ (f a).log := by
  change (bind x f).log = _
  rw [bind, h]

theorem log_bind_error {x : Traced ι ε α} {e : ε} (h : x.outcome = .error e)
    (f : α → Traced ι ε β) : (x >>= f).log = x.log := by
  change (bind x f).log = _
  rw [bind, h]

/-- The outcome of a fold is the fold of the outcomes. -/
theorem outcome_foldlM (f : α → γ → Traced ι ε α) (l : List γ) (a : α) :
    (l.foldlM f a).outcome = l.foldlM (fun a c => (f a c).outcome) a := by
  induction l generalizing a with
  | nil => rfl
  | cons c l ih =>
    rw [List.foldlM_cons, List.foldlM_cons, outcome_bind]
    congr 1
    funext a'
    exact ih a'

/-! ### What a log contains -/

/-- Everything that is done satisfies `P`. -/
def Logs (P : ι → Prop) (x : Traced ι ε α) : Prop :=
  ∀ i ∈ x.log, P i

variable {P : ι → Prop}

theorem Logs.lift (x : Except ε α) : Logs P (lift x : Traced ι ε α) :=
  fun _ hi => absurd hi List.not_mem_nil

theorem Logs.note {i : ι} (hi : P i) : Logs P (note i : Traced ι ε Unit) := by
  intro j hj
  rw [log_note, List.mem_singleton] at hj
  rwa [hj]

theorem Logs.bind {x : Traced ι ε α} {f : α → Traced ι ε β} (hx : Logs P x)
    (hf : ∀ a, x.outcome = .ok a → Logs P (f a)) : Logs P (x >>= f) := by
  intro i hi
  cases h : x.outcome with
  | ok a =>
    rw [log_bind_ok h, List.mem_append] at hi
    exact hi.elim (hx i) (hf a h i)
  | error e =>
    rw [log_bind_error h] at hi
    exact hx i hi

theorem Logs.foldlM {f : α → γ → Traced ι ε α} {l : List γ}
    (h : ∀ a, ∀ c ∈ l, Logs P (f a c)) (a : α) : Logs P (l.foldlM f a) := by
  induction l generalizing a with
  | nil => exact Logs.lift (.ok a)
  | cons c l ih =>
    rw [List.foldlM_cons]
    refine (h a c List.mem_cons_self).bind fun a' _ => ?_
    exact ih (fun a c' hc' => h a c' (List.mem_cons_of_mem c hc')) a'

/-- What the first step does is done by the sequence, whether or not it succeeds. -/
theorem mem_log_bind_left {x : Traced ι ε α} {i : ι} (hi : i ∈ x.log) (f : α → Traced ι ε β) :
    i ∈ (x >>= f).log := by
  cases h : x.outcome with
  | ok a =>
    rw [log_bind_ok h]
    exact List.mem_append_left _ hi
  | error e => rwa [log_bind_error h]

theorem mem_log_bind_right {x : Traced ι ε α} {a : α} {f : α → Traced ι ε β} {i : ι}
    (h : x.outcome = .ok a) (hi : i ∈ (f a).log) : i ∈ (x >>= f).log := by
  rw [log_bind_ok h]
  exact List.mem_append_right _ hi

/-- What a step of a fold does is done by the whole fold, when the steps before it succeed. -/
theorem mem_log_foldlM {f : α → γ → Traced ι ε α} {front back : List γ} {c : γ} {a b : α} {i : ι}
    (hfront : (front.foldlM f a).outcome = .ok b) (hi : i ∈ (f b c).log) :
    i ∈ ((front ++ c :: back).foldlM f a).log := by
  induction front generalizing a with
  | nil =>
    cases hfront
    rw [List.nil_append, List.foldlM_cons]
    exact mem_log_bind_left hi _
  | cons c' front ih =>
    rw [List.foldlM_cons, outcome_bind] at hfront
    obtain ⟨a', ha', hrest⟩ := bind_eq_ok.mp hfront
    rw [List.cons_append, List.foldlM_cons]
    exact mem_log_bind_right ha' (ih hrest)

end Traced

end ApfsCore
