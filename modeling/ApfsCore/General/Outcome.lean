import Mathlib.Data.List.Basic
import Mathlib.Data.List.Induction
import Mathlib.Tactic.Basic

/-!
# Outcomes of fallible runs, one run and two

A fallible computation is an `Except ε α`. Two groups of facts are used throughout:

* **Inversion** (`bind_eq_ok`): a sequence of steps succeeds exactly when its first step
  does and the rest succeeds on its value.
* **Two runs** (`OkRel`): the successful outcomes of two computations match up along a
  relation on their values, while their errors are not compared. `OkRel` composes along
  `bind` and along a monadic fold, so a statement about two runs of a program is proved
  step by step, from the steps at which the runs can differ. `OkEq` is the case of equal
  values: each computation succeeds with `a` exactly when the other does.
-/

namespace ApfsCore

universe u v

variable {ε ε' : Type v} {α β γ δ : Type u}

/-! ### Inversion -/

theorem bind_eq_ok {x : Except ε α} {f : α → Except ε β} {b : β} :
    (x >>= f) = .ok b ↔ ∃ a, x = .ok a ∧ f a = .ok b := by
  cases x with
  | error e =>
    constructor
    · intro h
      cases h
    · rintro ⟨a, h, -⟩
      cases h
  | ok a =>
    constructor
    · intro h
      exact ⟨a, rfl, h⟩
    · rintro ⟨a', h, hf⟩
      cases h
      exact hf

theorem map_eq_ok {x : Except ε α} {f : α → β} {b : β} :
    (f <$> x) = .ok b ↔ ∃ a, x = .ok a ∧ f a = b := by
  cases x with
  | error e =>
    constructor
    · intro h
      cases h
    · rintro ⟨a, h, -⟩
      cases h
  | ok a =>
    constructor
    · intro h
      cases h
      exact ⟨a, rfl, rfl⟩
    · rintro ⟨a', h, rfl⟩
      cases h
      rfl

@[simp] theorem ok_bind (a : α) (f : α → Except ε β) : (Except.ok a >>= f) = f a := rfl

@[simp] theorem error_bind (e : ε) (f : α → Except ε β) :
    (Except.error e >>= f) = .error e := rfl

@[simp] theorem map_ok (f : α → β) (a : α) : (f <$> (Except.ok a : Except ε α)) = .ok (f a) :=
  rfl

@[simp] theorem map_error (f : α → β) (e : ε) :
    (f <$> (Except.error e : Except ε α)) = .error e :=
  rfl

/-- A monadic fold none of whose steps fails is the fold of the values. -/
theorem foldlM_eq_ok_foldl {f : α → γ → Except ε α} {g : α → γ → α} {l : List γ}
    (h : ∀ a, ∀ c ∈ l, f a c = .ok (g a c)) (a : α) : l.foldlM f a = .ok (l.foldl g a) := by
  induction l generalizing a with
  | nil => rfl
  | cons c l ih =>
    rw [List.foldlM_cons, h a c List.mem_cons_self, ok_bind, List.foldl_cons]
    exact ih (fun a c' hc' => h a c' (List.mem_cons_of_mem c hc')) _

/-- The case of steps that succeed as long as a property holds, which they keep. -/
theorem foldlM_eq_ok_foldl_of_inv {f : α → γ → Except ε α} {g : α → γ → α} {P : α → Prop}
    {l : List γ} (h : ∀ a, ∀ c ∈ l, P a → f a c = .ok (g a c) ∧ P (g a c)) {a : α} (ha : P a) :
    l.foldlM f a = .ok (l.foldl g a) := by
  induction l generalizing a with
  | nil => rfl
  | cons c l ih =>
    obtain ⟨hstep, hP⟩ := h a c List.mem_cons_self ha
    rw [List.foldlM_cons, hstep, ok_bind, List.foldl_cons]
    exact ih (fun a c' hc' => h a c' (List.mem_cons_of_mem c hc')) hP

/-- Collecting what the elements yield, one by one, is a `filterMap`. -/
theorem foldl_append_toList (f : γ → Option α) (l : List γ) (out : List α) :
    l.foldl (fun out c => out ++ (f c).toList) out = out ++ l.filterMap f := by
  induction l generalizing out with
  | nil => rw [List.foldl_nil, List.filterMap_nil, List.append_nil]
  | cons c l ih =>
    rw [List.foldl_cons, ih, List.filterMap_cons, List.append_assoc]
    cases f c <;> rfl

/-- A property that every successful step keeps holds after a successful fold. -/
theorem foldlM_invariant {f : α → γ → Except ε α} {P : α → Prop} {l : List γ}
    (hstep : ∀ a, ∀ c ∈ l, ∀ b, P a → f a c = .ok b → P b) {a b : α} (ha : P a)
    (h : l.foldlM f a = .ok b) : P b := by
  induction l generalizing a with
  | nil =>
    cases h
    exact ha
  | cons c l ih =>
    rw [List.foldlM_cons] at h
    obtain ⟨a', hfirst, hrest⟩ := bind_eq_ok.mp h
    exact ih (fun a c' hc' => hstep a c' (List.mem_cons_of_mem c hc'))
      (hstep a c List.mem_cons_self a' ha hfirst) hrest

/-- The error of a computation that fails satisfies `P`. -/
def ErrorsIn (P : ε → Prop) (x : Except ε α) : Prop :=
  ∀ e, x = .error e → P e

theorem ErrorsIn.ok {P : ε → Prop} (a : α) : ErrorsIn P (.ok a : Except ε α) := by
  intro e h
  cases h

theorem ErrorsIn.error {P : ε → Prop} {e : ε} (he : P e) :
    ErrorsIn P (.error e : Except ε α) := by
  intro e' h
  cases h
  exact he

theorem ErrorsIn.ite {P : ε → Prop} {c : Prop} [Decidable c] {x y : Except ε α}
    (hx : ErrorsIn P x) (hy : ErrorsIn P y) : ErrorsIn P (if c then x else y) := by
  split_ifs
  · exact hx
  · exact hy

theorem ErrorsIn.bind {P : ε → Prop} {x : Except ε α} {f : α → Except ε β} (hx : ErrorsIn P x)
    (hf : ∀ a, x = .ok a → ErrorsIn P (f a)) : ErrorsIn P (x >>= f) := by
  cases x with
  | error e => exact .error (hx e rfl)
  | ok a => exact hf a rfl

theorem ErrorsIn.map {P : ε → Prop} {x : Except ε α} (hx : ErrorsIn P x) (f : α → β) :
    ErrorsIn P (f <$> x) := by
  cases x with
  | error e => exact .error (hx e rfl)
  | ok a => exact .ok _

theorem ErrorsIn.foldlM {P : ε → Prop} {f : α → γ → Except ε α} {l : List γ}
    (h : ∀ a, ∀ c ∈ l, ErrorsIn P (f a c)) (a : α) : ErrorsIn P (l.foldlM f a) := by
  induction l generalizing a with
  | nil => exact .ok a
  | cons c l ih =>
    rw [List.foldlM_cons]
    refine (h a c List.mem_cons_self).bind fun a' _ => ?_
    exact ih (fun a c' hc' => h a c' (List.mem_cons_of_mem c hc')) a'

/-- Folds whose steps agree on the elements of the list agree. -/
theorem foldlM_congr_mem {f g : α → γ → Except ε α} {l : List γ}
    (h : ∀ c ∈ l, ∀ a, f a c = g a c) (a : α) : l.foldlM f a = l.foldlM g a := by
  induction l generalizing a with
  | nil => rfl
  | cons c l ih =>
    rw [List.foldlM_cons, List.foldlM_cons, h c List.mem_cons_self a]
    congr 1
    funext a'
    exact ih (fun c' hc' => h c' (List.mem_cons_of_mem c hc')) a'

/-- A fold over the positions of a list whose steps look up the element there is the fold over
the list. -/
theorem foldlM_range_eq {f : α → ℕ → Except ε α} {g : α → γ → Except ε α} {l : List γ}
    (h : ∀ i c, l[i]? = some c → ∀ a, f a i = g a c) (a : α) :
    (List.range l.length).foldlM f a = l.foldlM g a := by
  induction l using List.reverseRecOn generalizing a with
  | nil => rfl
  | append_singleton l c ih =>
    have hinit : ∀ i c', l[i]? = some c' → ∀ a, f a i = g a c' := by
      intro i c' hi
      obtain ⟨hlt, -⟩ := List.getElem?_eq_some_iff.mp hi
      exact h i c' (by rwa [List.getElem?_append_left hlt])
    -- the last position is the one of the element just appended
    have hlast : ∀ a, f a l.length = g a c := h l.length c (by simp)
    rw [List.length_append, List.length_singleton, List.range_succ, List.foldlM_append,
      List.foldlM_append, ih hinit]
    congr 1
    funext a'
    rw [List.foldlM_cons, List.foldlM_cons, hlast]
    rfl

/-! ### Two runs -/

/-- The successful outcomes of `x` and `y` correspond along `R`; nothing is said about
their errors beyond that they occur together. -/
def OkRel (R : α → β → Prop) (x : Except ε α) (y : Except ε' β) : Prop :=
  (∀ a, x = .ok a → ∃ b, y = .ok b ∧ R a b) ∧ ∀ b, y = .ok b → ∃ a, x = .ok a ∧ R a b

/-- `x` and `y` succeed on the same values. -/
abbrev OkEq (x : Except ε α) (y : Except ε' α) : Prop :=
  OkRel Eq x y

theorem okEq_iff {x : Except ε α} {y : Except ε' α} :
    OkEq x y ↔ ∀ a, x = .ok a ↔ y = .ok a := by
  constructor
  · rintro ⟨h₁, h₂⟩ a
    constructor
    · intro h
      obtain ⟨b, hb, rfl⟩ := h₁ a h
      exact hb
    · intro h
      obtain ⟨b, hb, rfl⟩ := h₂ a h
      exact hb
  · intro h
    exact ⟨fun a ha => ⟨a, (h a).mp ha, rfl⟩, fun a ha => ⟨a, (h a).mpr ha, rfl⟩⟩

theorem OkEq.refl (x : Except ε α) : OkEq x x :=
  okEq_iff.mpr fun _ => Iff.rfl

theorem OkRel.ok {R : α → β → Prop} {a : α} {b : β} (h : R a b) :
    OkRel R (.ok a : Except ε α) (.ok b : Except ε' β) := by
  constructor
  · intro a' ha
    cases ha
    exact ⟨b, rfl, h⟩
  · intro b' hb
    cases hb
    exact ⟨a, rfl, h⟩

theorem OkRel.error {R : α → β → Prop} (e : ε) (e' : ε') :
    OkRel R (.error e : Except ε α) (.error e' : Except ε' β) := by
  constructor
  · intro a h
    cases h
  · intro b h
    cases h

/-- Related steps followed by related continuations are related. -/
theorem OkRel.bind {R : α → β → Prop} {S : γ → δ → Prop} {x : Except ε α} {y : Except ε' β}
    {f : α → Except ε γ} {g : β → Except ε' δ} (h : OkRel R x y)
    (hfg : ∀ a b, R a b → OkRel S (f a) (g b)) : OkRel S (x >>= f) (y >>= g) := by
  constructor
  · intro c hc
    obtain ⟨a, hx, hf⟩ := bind_eq_ok.mp hc
    obtain ⟨b, hy, hab⟩ := h.1 a hx
    obtain ⟨d, hg, hcd⟩ := (hfg a b hab).1 c hf
    exact ⟨d, bind_eq_ok.mpr ⟨b, hy, hg⟩, hcd⟩
  · intro d hd
    obtain ⟨b, hy, hg⟩ := bind_eq_ok.mp hd
    obtain ⟨a, hx, hab⟩ := h.2 b hy
    obtain ⟨c, hf, hcd⟩ := (hfg a b hab).2 d hg
    exact ⟨c, bind_eq_ok.mpr ⟨a, hx, hf⟩, hcd⟩

/-- The case of `OkRel.bind` in which the first steps agree on their values. -/
theorem OkEq.bind {S : γ → δ → Prop} {x : Except ε α} {y : Except ε' α}
    {f : α → Except ε γ} {g : α → Except ε' δ} (h : OkEq x y)
    (hfg : ∀ a, OkRel S (f a) (g a)) : OkRel S (x >>= f) (y >>= g) := by
  refine OkRel.bind h ?_
  rintro a _ rfl
  exact hfg a

theorem OkEq.map {x : Except ε α} {y : Except ε' α} (h : OkEq x y) (f : α → β) :
    OkEq (f <$> x) (f <$> y) := by
  rw [okEq_iff] at h ⊢
  intro b
  rw [map_eq_ok, map_eq_ok]
  simp only [h]

/-- A monadic fold over one list, run from related states with related steps, ends in
related states. -/
theorem OkRel.foldlM {R : α → β → Prop} {f : α → γ → Except ε α} {g : β → γ → Except ε' β}
    (l : List γ) (hfg : ∀ a b, ∀ c ∈ l, R a b → OkRel R (f a c) (g b c)) {a : α} {b : β}
    (h : R a b) : OkRel R (l.foldlM f a) (l.foldlM g b) := by
  induction l generalizing a b with
  | nil => exact OkRel.ok h
  | cons c l ih =>
    rw [List.foldlM_cons, List.foldlM_cons]
    refine OkRel.bind (hfg a b c List.mem_cons_self h) fun a' b' h' => ih ?_ h'
    exact fun a b c' hc' => hfg a b c' (List.mem_cons_of_mem c hc')

end ApfsCore
