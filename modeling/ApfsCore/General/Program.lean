import ApfsCore.General.GuardedWalk
import ApfsCore.General.FloorSearch

/-!
# Programs that call a device

A `Program` is a finite tree: it is done with an outcome, or it makes a call and goes on with the
reply. What the device replies depends on its state, need not be determined by it, and changes it;
a device is any relation between a state, a call, a reply and the state after (`Device`).

A program *answers* an outcome (`Answers`) when it comes to that outcome from every state of the
device and whatever the device replies on the way: its calls make it independent of the state it
starts from. Outcomes compose as programs do (`Answers.bind`), and so do walks of stored trees
(`answers_walk`, `answers_follow`), so that a program over a device is compared step by step with
the plain function that knows no device.
-/

namespace ApfsCore

universe u v

/-- A program that makes calls `κ`, gets replies `ρ`, and ends with an error `ε` or a value `α`. -/
inductive Program (κ ρ : Type) (ε : Type v) (α : Type u) where
  | done (x : Except ε α)
  | call (c : κ) (next : ρ → Program κ ρ ε α)

/-- A device: which replies it may give to a call in a state, and the state after. -/
abbrev Device (σ κ ρ : Type) :=
  σ → κ → ρ → σ → Prop

variable {κ ρ σ : Type} {ε : Type v} {α β γ : Type u}

namespace Program

/-- Run a program on with the value of another one, unless that fails. -/
def bind (p : Program κ ρ ε α) (f : α → Program κ ρ ε β) : Program κ ρ ε β :=
  match p with
  | done (.ok a) => f a
  | done (.error e) => done (.error e)
  | call c next => call c fun r => bind (next r) f

instance : Monad (Program κ ρ ε) where
  pure a := done (.ok a)
  bind := bind

/-- An outcome that takes no call. -/
def lift (x : Except ε α) : Program κ ρ ε α :=
  done x

/-- A single call, whose reply is the value. -/
def perform (c : κ) : Program κ ρ ε ρ :=
  call c fun r => done (.ok r)

/-- Rename the errors of a program. -/
def mapError {ε' : Type v} (f : ε → ε') : Program κ ρ ε α → Program κ ρ ε' α
  | done x => done (x.mapError f)
  | call c next => call c fun r => mapError f (next r)

/-- From a state, the program comes to the outcome whatever the device replies, and the device
replies to each of its calls. -/
def Yields (D : Device σ κ ρ) : Program κ ρ ε α → σ → Except ε α → Prop
  | done y, _, x => y = x
  | call c next, s, x =>
    (∃ r s', D s c r s') ∧ ∀ r s', D s c r s' → Yields D (next r) s' x

/-- From every state, the program comes to the outcome. -/
def Answers (D : Device σ κ ρ) (p : Program κ ρ ε α) (x : Except ε α) : Prop :=
  ∀ s, Yields D p s x

section Answers

variable {D : Device σ κ ρ}

theorem Answers.done (x : Except ε α) : Answers D (done x) x :=
  fun _ => rfl

theorem Yields.bind {p : Program κ ρ ε α} {x : Except ε α} {f : α → Program κ ρ ε β}
    {g : α → Except ε β} {s : σ} (hp : Yields D p s x)
    (hf : ∀ a, x = .ok a → Answers D (f a) (g a)) : Yields D (p >>= f) s (x >>= g) := by
  change Yields D (Program.bind p f) s (x >>= g)
  induction p generalizing s with
  | done y =>
    cases hp
    cases x with
    | error e => rfl
    | ok a => exact hf a rfl s
  | call c next ih => exact ⟨hp.1, fun r s' h => ih r (hp.2 r s' h)⟩

/-- **Outcomes compose as programs do.** -/
theorem Answers.bind {p : Program κ ρ ε α} {x : Except ε α} {f : α → Program κ ρ ε β}
    {g : α → Except ε β} (hp : Answers D p x) (hf : ∀ a, x = .ok a → Answers D (f a) (g a)) :
    Answers D (p >>= f) (x >>= g) :=
  fun s => (hp s).bind hf

theorem Answers.map {p : Program κ ρ ε α} {x : Except ε α} (hp : Answers D p x) (f : α → β) :
    Answers D (f <$> p) (f <$> x) := by
  have hx : f <$> x = x >>= fun a => .ok (f a) := by cases x <;> rfl
  rw [hx]
  exact hp.bind fun a _ => .done (.ok (f a))

theorem Yields.mapError {ε' : Type v} {p : Program κ ρ ε α} {x : Except ε α} {s : σ}
    (hp : Yields D p s x) (f : ε → ε') : Yields D (p.mapError f) s (x.mapError f) := by
  induction p generalizing s with
  | done y =>
    cases hp
    rfl
  | call c next ih => exact ⟨hp.1, fun r s' hr => ih r (hp.2 r s' hr)⟩

theorem Answers.mapError {ε' : Type v} {p : Program κ ρ ε α} {x : Except ε α}
    (hp : Answers D p x) (f : ε → ε') : Answers D (p.mapError f) (x.mapError f) :=
  fun s => (hp s).mapError f

theorem Answers.ite {c : Prop} [Decidable c] {p q : Program κ ρ ε α} {x y : Except ε α}
    (hp : Answers D p x) (hq : Answers D q y) :
    Answers D (if c then p else q) (if c then x else y) := by
  split_ifs
  · exact hp
  · exact hq

theorem Answers.foldlM {f : β → α → Program κ ρ ε β} {g : β → α → Except ε β}
    (h : ∀ b a, Answers D (f b a) (g b a)) (l : List α) (b : β) :
    Answers D (l.foldlM f b) (l.foldlM g b) := by
  induction l generalizing b with
  | nil => exact .done (.ok b)
  | cons a l ih =>
    rw [List.foldlM_cons, List.foldlM_cons]
    exact (h b a).bind fun b' _ => ih b'

end Answers

/-! ### Walks -/

/-- `walkList`, as a program. -/
def walkList (step : List β → α → Program κ ρ ε (List β × List γ)) :
    List β → List α → Program κ ρ ε (List β × List γ)
  | seen, [] => lift (.ok (seen, []))
  | seen, a :: as => do
    let (seen₁, rs₁) ← step seen a
    let (seen₂, rs₂) ← walkList step seen₁ as
    lift (.ok (seen₂, rs₁ ++ rs₂))

/-- `walk`, as a program. -/
def walk [DecidableEq β] (fetch : α → Program κ ρ ε (Node γ)) (children : List γ → List α)
    (key : α → β) (guard : ε) : ℕ → List β → α → Program κ ρ ε (List β × List γ)
  | 0, _, _ => lift (.error guard)
  | n + 1, seen, a =>
    if key a ∈ seen then lift (.error guard)
    else do
      match ← fetch a with
      | .leaf es => lift (.ok (key a :: seen, es))
      | .index es => walkList (walk fetch children key guard n) (key a :: seen) (children es)

/-- `follow`, as a program. -/
def follow [DecidableEq α] (fetch : α → Program κ ρ ε (Node γ)) (pick : List γ → Option α)
    (guard : ε) : ℕ → List α → α → Program κ ρ ε (List γ)
  | 0, _, _ => lift (.error guard)
  | n + 1, seen, a =>
    if a ∈ seen then lift (.error guard)
    else do
      match ← fetch a with
      | .leaf es => lift (.ok es)
      | .index es =>
        match pick es with
        | none => lift (.ok [])
        | some c => follow fetch pick guard n (a :: seen) c

section Walks

variable {D : Device σ κ ρ}

theorem answers_walkList {step : List β → α → Program κ ρ ε (List β × List γ)}
    {step' : List β → α → Except ε (List β × List γ)}
    (h : ∀ seen a, Answers D (step seen a) (step' seen a)) (seen : List β) (as : List α) :
    Answers D (walkList step seen as) (ApfsCore.walkList step' seen as) := by
  induction as generalizing seen with
  | nil => exact .done _
  | cons a as ih => exact (h seen a).bind fun p _ => (ih p.1).bind fun q _ => .done _

/-- A walk of nodes that are fetched by programs is the walk of the nodes they answer. -/
theorem answers_walk [DecidableEq β] {fetch : α → Program κ ρ ε (Node γ)}
    {fetch' : α → Except ε (Node γ)} (h : ∀ a, Answers D (fetch a) (fetch' a))
    (children : List γ → List α) (key : α → β) (guard : ε) (n : ℕ) (seen : List β) (a : α) :
    Answers D (walk fetch children key guard n seen a)
      (ApfsCore.walk fetch' children key guard n seen a) := by
  induction n generalizing seen a with
  | zero => exact .done _
  | succ n ih =>
    refine .ite (.done _) ((h a).bind fun node _ => ?_)
    cases node with
    | leaf es => exact .done _
    | index es => exact answers_walkList ih _ _

theorem answers_follow [DecidableEq α] {fetch : α → Program κ ρ ε (Node γ)}
    {fetch' : α → Except ε (Node γ)} (h : ∀ a, Answers D (fetch a) (fetch' a))
    (pick : List γ → Option α) (guard : ε) (n : ℕ) (seen : List α) (a : α) :
    Answers D (follow fetch pick guard n seen a)
      (ApfsCore.follow fetch' pick guard n seen a) := by
  induction n generalizing seen a with
  | zero => exact .done _
  | succ n ih =>
    refine .ite (.done _) ((h a).bind fun node _ => ?_)
    cases node with
    | leaf es => exact .done _
    | index es =>
      cases hpick : pick es with
      | none => simpa only [hpick] using .done _
      | some c => simpa only [hpick] using ih _ c

end Walks

end Program

end ApfsCore
