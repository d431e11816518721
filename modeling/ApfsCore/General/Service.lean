import ApfsCore.General.Program
import Mathlib.Logic.Function.Basic

/-!
# Workers that share a device under a lock

Any number of workers make requests of a service that owns a device. A request is settled at once,
or by a program that runs under a lock: the worker waits for the lock, makes the calls of its
program one by one, and releases the lock with the answer. Between any two steps of a worker the
others may take steps of their own. A panic under the lock kills its worker and poisons the lock,
and a poisoned lock refuses whoever takes it.

If each program answers its request from every state of the device, and no request panics
(`Serves`), then in every state that a run reaches (`Safe`, kept by every step):

* at most one worker is at the device, and it holds the lock;
* the lock is not poisoned, and no worker is dead;
* every answer given is the one the request has when it is made alone;
* each worker's requests are answered once each, in the order it made them.

Nor does a worker that waits ever wait in vain: from every such state there is a run that answers
its request (`Safe.exists_answer`).
-/

namespace ApfsCore

/-- A service over a device with calls `κ` and replies `ρ`, for requests `Q`. -/
structure Service (κ ρ ε α Q : Type) where
  /-- The answer to a request that is settled without the lock. -/
  early : Q → Option (Except ε α)
  /-- What is done for a request under the lock. -/
  body : Q → Program κ ρ ε α
  /-- The error of a request that finds the lock poisoned. -/
  refusal : ε
  /-- The errors that are panics. -/
  panics : ε → Prop

namespace Service

/-- What a worker is at. -/
inductive Phase (κ ρ ε α Q : Type) where
  | idle
  | waiting (q : Q)
  | running (q : Q) (p : Program κ ρ ε α)
  | dead (q : Q)

/-- The request a worker has made and has no answer to. -/
def Phase.pending {κ ρ ε α Q : Type} : Phase κ ρ ε α Q → List Q
  | idle => []
  | waiting q => [q]
  | running q _ => [q]
  | dead q => [q]

/-- The device, the lock, the workers, and what was asked and answered, latest first. -/
structure State (σ ω κ ρ ε α Q : Type) where
  device : σ
  lock : Option ω
  poisoned : Bool
  phase : ω → Phase κ ρ ε α Q
  asked : List (ω × Q)
  answered : List (ω × Q × Except ε α)

variable {σ ω κ ρ ε α Q : Type} [DecidableEq ω]

/-- Before any request, with the device in a state. -/
def start (device : σ) : State σ ω κ ρ ε α Q where
  device
  lock := none
  poisoned := false
  phase _ := .idle
  asked := []
  answered := []

/-- A worker goes on to another phase. -/
def State.become (s : State σ ω κ ρ ε α Q) (w : ω) (p : Phase κ ρ ε α Q) :
    State σ ω κ ρ ε α Q :=
  { s with phase := Function.update s.phase w p }

/-- A worker gets its answer. -/
def State.answer (s : State σ ω κ ρ ε α Q) (w : ω) (q : Q) (x : Except ε α) :
    State σ ω κ ρ ε α Q :=
  { s.become w .idle with answered := (w, q, x) :: s.answered }

/-- The steps of the workers. -/
inductive Step (sv : Service κ ρ ε α Q) (D : Device σ κ ρ) :
    State σ ω κ ρ ε α Q → State σ ω κ ρ ε α Q → Prop
  /-- A worker makes a request. -/
  | ask {s : State σ ω κ ρ ε α Q} {w : ω} (q : Q) (hw : s.phase w = .idle) :
      Step sv D s { s.become w (.waiting q) with asked := (w, q) :: s.asked }
  /-- A request is settled without the lock. -/
  | settle {s : State σ ω κ ρ ε α Q} {w : ω} {q : Q} {x : Except ε α}
      (hw : s.phase w = .waiting q) (hx : sv.early q = some x) : Step sv D s (s.answer w q x)
  /-- A worker takes the lock. -/
  | acquire {s : State σ ω κ ρ ε α Q} {w : ω} {q : Q} (hw : s.phase w = .waiting q)
      (hearly : sv.early q = none) (hfree : s.lock = none) (hsound : s.poisoned = false) :
      Step sv D s { s.become w (.running q (sv.body q)) with lock := some w }
  /-- A worker takes the lock and finds it poisoned. -/
  | refuse {s : State σ ω κ ρ ε α Q} {w : ω} {q : Q} (hw : s.phase w = .waiting q)
      (hearly : sv.early q = none) (hfree : s.lock = none) (hpoisoned : s.poisoned = true) :
      Step sv D s (s.answer w q (.error sv.refusal))
  /-- A worker makes a call of its program. -/
  | call {s : State σ ω κ ρ ε α Q} {w : ω} {q : Q} {c : κ} {next : ρ → Program κ ρ ε α} {r : ρ}
      {d : σ} (hw : s.phase w = .running q (.call c next)) (hr : D s.device c r d) :
      Step sv D s { s.become w (.running q (next r)) with device := d }
  /-- A worker releases the lock with the answer. -/
  | release {s : State σ ω κ ρ ε α Q} {w : ω} {q : Q} {x : Except ε α}
      (hw : s.phase w = .running q (.done x)) (hx : ∀ e, x = .error e → ¬sv.panics e) :
      Step sv D s { s.answer w q x with lock := none }
  /-- A worker panics, and its guard releases the lock. -/
  | panic {s : State σ ω κ ρ ε α Q} {w : ω} {q : Q} {e : ε}
      (hw : s.phase w = .running q (.done (.error e))) (he : sv.panics e) :
      Step sv D s { s.become w (.dead q) with lock := none, poisoned := true }

/-- The states that a run reaches. -/
inductive Run (sv : Service κ ρ ε α Q) (D : Device σ κ ρ) :
    State σ ω κ ρ ε α Q → State σ ω κ ρ ε α Q → Prop
  | refl (s : State σ ω κ ρ ε α Q) : Run sv D s s
  | tail {s t u : State σ ω κ ρ ε α Q} : Run sv D s t → Step sv D t u → Run sv D s u

/-- The answer to a request made alone. -/
def alone (sv : Service κ ρ ε α Q) (spec : Q → Except ε α) (q : Q) : Except ε α :=
  (sv.early q).getD (spec q)

/-- Each request has its answer whatever state the device is in, and does not panic. -/
structure Serves (sv : Service κ ρ ε α Q) (D : Device σ κ ρ) (spec : Q → Except ε α) : Prop where
  answers : ∀ q, sv.early q = none → (sv.body q).Answers D (spec q)
  no_panic : ∀ q e, sv.early q = none → spec q = .error e → ¬sv.panics e

/-- The requests of a worker. -/
def requestsOf (w : ω) (asked : List (ω × Q)) : List Q :=
  (asked.filter fun a => a.1 = w).map Prod.snd

/-- The requests of a worker that were answered. -/
def answersTo (w : ω) (answered : List (ω × Q × Except ε α)) : List Q :=
  (answered.filter fun a => a.1 = w).map fun a => a.2.1

/-- What holds in every state that a run reaches. -/
structure Safe (sv : Service κ ρ ε α Q) (D : Device σ κ ρ) (spec : Q → Except ε α)
    (s : State σ ω κ ρ ε α Q) : Prop where
  /-- The lock is not poisoned. -/
  sound : s.poisoned = false
  /-- Whoever is at the device holds the lock. -/
  holder : ∀ w q p, s.phase w = .running q p → s.lock = some w
  /-- Whoever holds the lock is at the device. -/
  held : ∀ w, s.lock = some w → ∃ q p, s.phase w = .running q p
  /-- What is left of a program comes to the answer of its request. -/
  running : ∀ w q p, s.phase w = .running q p →
    sv.early q = none ∧ p.Yields D s.device (spec q)
  /-- No worker is dead. -/
  alive : ∀ w q, s.phase w ≠ .dead q
  /-- Every answer is the one the request has alone. -/
  answers : ∀ a ∈ s.answered, a.2.2 = sv.alone spec a.2.1
  /-- The requests of a worker are those answered, and the one that is pending. -/
  order : ∀ w, requestsOf w s.asked = (s.phase w).pending ++ answersTo w s.answered

section Safety

variable {sv : Service κ ρ ε α Q} {D : Device σ κ ρ} {spec : Q → Except ε α}
  {s t : State σ ω κ ρ ε α Q}

theorem safe_start (device : σ) : Safe sv D spec (start device : State σ ω κ ρ ε α Q) where
  sound := rfl
  holder w q p h := by cases h
  held w h := by cases h
  running w q p h := by cases h
  alive w q h := by cases h
  answers a h := by cases h
  order w := rfl

/-- At most one worker is at the device. -/
theorem Safe.unique (h : Safe sv D spec s) {w w' : ω} {q q' : Q} {p p' : Program κ ρ ε α}
    (hw : s.phase w = .running q p) (hw' : s.phase w' = .running q' p') : w = w' :=
  Option.some.inj ((h.holder w q p hw).symm.trans (h.holder w' q' p' hw'))

/-- Only the worker that goes on to another phase is at another phase. -/
theorem phase_become (w w' : ω) (p : Phase κ ρ ε α Q) :
    (s.become w p).phase w' = if w' = w then p else s.phase w' :=
  Function.update_apply _ _ _ _

theorem phase_answer (w w' : ω) (q : Q) (x : Except ε α) :
    (s.answer w q x).phase w' = if w' = w then .idle else s.phase w' :=
  phase_become w w' .idle

theorem requestsOf_cons (w w' : ω) (q : Q) (asked : List (ω × Q)) :
    requestsOf w' ((w, q) :: asked) = if w = w' then q :: requestsOf w' asked
      else requestsOf w' asked := by
  rw [requestsOf, List.filter_cons]
  by_cases hw : w = w' <;> simp [hw, requestsOf]

theorem answersTo_cons (w w' : ω) (q : Q) (x : Except ε α)
    (answered : List (ω × Q × Except ε α)) :
    answersTo w' ((w, q, x) :: answered) = if w = w' then q :: answersTo w' answered
      else answersTo w' answered := by
  rw [answersTo, List.filter_cons]
  by_cases hw : w = w' <;> simp [hw, answersTo]

/-- A worker that is not at the device goes on to a phase that is not at it either. -/
private theorem Safe.phase_of_running {w : ω} {p : Phase κ ρ ε α Q}
    (hp : ∀ q p', p ≠ .running q p') {w' : ω} {q' : Q} {p' : Program κ ρ ε α}
    (hrun : (s.become w p).phase w' = .running q' p') : w' ≠ w ∧ s.phase w' = .running q' p' := by
  rw [phase_become] at hrun
  split_ifs at hrun with heq
  · exact absurd hrun (hp q' p')
  · exact ⟨heq, hrun⟩

/-- A worker that waits is answered, while the rest stays as it is. -/
private theorem Safe.answer_waiting (h : Safe sv D spec s) {w : ω} {q : Q} {x : Except ε α}
    (hw : s.phase w = .waiting q) (hx : x = sv.alone spec q) :
    Safe sv D spec (s.answer w q x) where
  sound := h.sound
  holder w' q' p hp := h.holder w' q' p (phase_of_running (by simp) hp).2
  held w' hw' := by
    obtain ⟨q', p, hp⟩ := h.held w' hw'
    refine ⟨q', p, ?_⟩
    rw [phase_answer, if_neg, hp]
    rintro rfl
    rw [hw] at hp
    cases hp
  running w' q' p hp := h.running w' q' p (phase_of_running (by simp) hp).2
  alive w' q' hdead := by
    rw [phase_answer] at hdead
    split_ifs at hdead
    exact h.alive w' q' hdead
  answers := List.forall_mem_cons.mpr ⟨hx, h.answers⟩
  order w' := by
    have horder := h.order w'
    rw [phase_answer, State.answer, answersTo_cons]
    by_cases heq : w' = w
    · subst heq
      rw [if_pos rfl, if_pos rfl]
      rw [hw] at horder
      exact horder
    · rw [if_neg heq, if_neg (Ne.symm heq)]
      exact horder

/-- A worker makes a request, while the rest stays as it is. -/
private theorem Safe.ask (h : Safe sv D spec s) {w : ω} (q : Q) (hw : s.phase w = .idle) :
    Safe sv D spec { s.become w (.waiting q) with asked := (w, q) :: s.asked } where
  sound := h.sound
  holder w' q' p hp := h.holder w' q' p (phase_of_running (by simp) hp).2
  held w' hw' := by
    obtain ⟨q', p, hp⟩ := h.held w' hw'
    refine ⟨q', p, (phase_become w w' _).trans ?_⟩
    rw [if_neg, hp]
    rintro rfl
    rw [hw] at hp
    cases hp
  running w' q' p hp := h.running w' q' p (phase_of_running (by simp) hp).2
  alive w' q' hdead := by
    replace hdead : (s.become w (.waiting q)).phase w' = .dead q' := hdead
    rw [phase_become] at hdead
    split_ifs at hdead
    exact h.alive w' q' hdead
  answers := h.answers
  order w' := by
    have horder := h.order w'
    have hphase := phase_become (s := s) w w' (.waiting q)
    dsimp only at hphase ⊢
    rw [requestsOf_cons, hphase]
    by_cases heq : w' = w
    · subst heq
      rw [if_pos rfl, if_pos rfl, horder, hw]
      rfl
    · rw [if_neg heq, if_neg (Ne.symm heq)]
      exact horder

/-- A worker takes the free lock. -/
private theorem Safe.acquire (h : Safe sv D spec s) (hserves : Serves sv D spec) {w : ω} {q : Q}
    (hw : s.phase w = .waiting q) (hearly : sv.early q = none) (hfree : s.lock = none) :
    Safe sv D spec { s.become w (.running q (sv.body q)) with lock := some w } := by
  have hnone : ∀ w' q' p, s.phase w' ≠ .running q' p := by
    intro w' q' p hp
    rw [h.holder w' q' p hp] at hfree
    cases hfree
  have hphase : ∀ w', (s.become w (.running q (sv.body q))).phase w' =
      if w' = w then .running q (sv.body q) else s.phase w' := fun w' => phase_become w w' _
  refine ⟨h.sound, fun w' q' p hp => ?_, fun w' hw' => ?_, fun w' q' p hp => ?_,
    fun w' q' hdead => ?_, h.answers, fun w' => ?_⟩
  · replace hp := (hphase w').symm.trans hp
    split_ifs at hp with heq
    · rw [heq]
    · exact absurd hp (hnone w' q' p)
  · cases hw'
    exact ⟨q, sv.body q, (hphase w).trans (if_pos rfl)⟩
  · replace hp := (hphase w').symm.trans hp
    split_ifs at hp with heq
    · cases hp
      exact ⟨hearly, hserves.answers q hearly s.device⟩
    · exact absurd hp (hnone w' q' p)
  · replace hdead := (hphase w').symm.trans hdead
    split_ifs at hdead
    exact h.alive w' q' hdead
  · have horder := h.order w'
    dsimp only
    rw [hphase]
    by_cases heq : w' = w
    · subst heq
      rw [if_pos rfl]
      rwa [hw] at horder
    · rwa [if_neg heq]

/-- The holder of the lock makes a call. -/
private theorem Safe.call (h : Safe sv D spec s) {w : ω} {q : Q} {c : κ}
    {next : ρ → Program κ ρ ε α} {r : ρ} {d : σ} (hw : s.phase w = .running q (.call c next))
    (hr : D s.device c r d) :
    Safe sv D spec { s.become w (.running q (next r)) with device := d } := by
  have hphase : ∀ w', (s.become w (.running q (next r))).phase w' =
      if w' = w then .running q (next r) else s.phase w' := fun w' => phase_become w w' _
  obtain ⟨hearly, -, hnext⟩ := h.running w q _ hw
  refine ⟨h.sound, fun w' q' p hp => ?_, fun w' hw' => ?_, fun w' q' p hp => ?_,
    fun w' q' hdead => ?_, h.answers, fun w' => ?_⟩
  · replace hp := (hphase w').symm.trans hp
    split_ifs at hp with heq
    · rw [heq]
      exact h.holder w q _ hw
    · exact h.holder w' q' p hp
  · cases (h.holder w q _ hw).symm.trans hw'
    exact ⟨q, next r, (hphase w).trans (if_pos rfl)⟩
  · replace hp := (hphase w').symm.trans hp
    split_ifs at hp with heq
    · cases hp
      exact ⟨hearly, hnext r d hr⟩
    · exact absurd (h.unique hp hw) heq
  · replace hdead := (hphase w').symm.trans hdead
    split_ifs at hdead
    exact h.alive w' q' hdead
  · have horder := h.order w'
    dsimp only
    rw [hphase]
    by_cases heq : w' = w
    · subst heq
      rw [if_pos rfl]
      rwa [hw] at horder
    · rwa [if_neg heq]

/-- The holder of the lock releases it with its answer. -/
private theorem Safe.release (h : Safe sv D spec s) {w : ω} {q : Q} {x : Except ε α}
    (hw : s.phase w = .running q (.done x)) :
    Safe sv D spec { s.answer w q x with lock := none } := by
  obtain ⟨hearly, hx⟩ := h.running w q _ hw
  have hnone : ∀ w' q' p, (s.answer w q x).phase w' ≠ .running q' p := by
    intro w' q' p hp
    obtain ⟨hne, hp⟩ := phase_of_running (by simp) hp
    exact hne (h.unique hp hw)
  refine ⟨h.sound, fun w' q' p hp => absurd hp (hnone w' q' p), fun w' hw' => (by cases hw'),
    fun w' q' p hp => absurd hp (hnone w' q' p), fun w' q' hdead => ?_,
    List.forall_mem_cons.mpr ⟨?_, h.answers⟩, fun w' => ?_⟩
  · replace hdead := (phase_answer w w' q x).symm.trans hdead
    split_ifs at hdead
    exact h.alive w' q' hdead
  · rw [alone, hearly]
    exact hx
  · have horder := h.order w'
    have hphase := phase_answer (s := s) w w' q x
    dsimp only
    rw [hphase, State.answer, answersTo_cons]
    by_cases heq : w' = w
    · subst heq
      rw [if_pos rfl, if_pos rfl]
      rw [hw] at horder
      exact horder
    · rw [if_neg heq, if_neg (Ne.symm heq)]
      exact horder

/-- **A step keeps the system safe.** -/
theorem Safe.step (hserves : Serves sv D spec) (h : Safe sv D spec s) (hstep : Step sv D s t) :
    Safe sv D spec t := by
  cases hstep with
  | ask q hw => exact h.ask q hw
  | settle hw hx => exact h.answer_waiting hw (by rw [alone, hx, Option.getD_some])
  | acquire hw hearly hfree hsound => exact h.acquire hserves hw hearly hfree
  | refuse hw hearly hfree hpoisoned =>
    rw [h.sound] at hpoisoned
    cases hpoisoned
  | call hw hr => exact h.call hw hr
  | release hw hx => exact h.release hw
  | panic hw he =>
    obtain ⟨hearly, hyields⟩ := h.running _ _ _ hw
    exact absurd he (hserves.no_panic _ _ hearly hyields.symm)

/-- **Every state that a run reaches is safe.** -/
theorem Safe.run (hserves : Serves sv D spec) (h : Safe sv D spec s) (hrun : Run sv D s t) :
    Safe sv D spec t := by
  induction hrun with
  | refl => exact h
  | tail _ hstep ih => exact ih.step hserves hstep

/-! ### Progress -/

theorem Run.trans {u : State σ ω κ ρ ε α Q} (h : Run sv D s t)
    (h' : Run sv D t u) : Run sv D s u := by
  induction h' with
  | refl => exact h
  | tail _ hstep ih => exact ih.tail hstep

/-- The holder of the lock can go on alone, until it releases the lock with its answer. -/
theorem Safe.exists_release (hserves : Serves sv D spec) {w : ω} {q : Q} {p : Program κ ρ ε α}
    (h : Safe sv D spec s) (hw : s.phase w = .running q p) :
    ∃ t, Run sv D s t ∧ t.lock = none ∧ (∀ w', w' ≠ w → t.phase w' = s.phase w') ∧
      t.answered = (w, q, sv.alone spec q) :: s.answered := by
  induction p generalizing s with
  | done x =>
    obtain ⟨hearly, hx⟩ := h.running w q _ hw
    have halone : sv.alone spec q = x := by
      rw [alone, hearly]
      exact hx.symm
    have hpanics : ∀ e, x = .error e → ¬sv.panics e := fun e he =>
      hserves.no_panic q e hearly (hx.symm.trans he)
    refine ⟨_, .tail (.refl s) (.release hw hpanics), rfl, fun w' hne => ?_, ?_⟩
    · exact (phase_answer w w' q x).trans (if_neg hne)
    · rw [halone]
      rfl
  | call c next ih =>
    obtain ⟨-, ⟨r, d, hr⟩, -⟩ := h.running w q _ hw
    have hnext : ({ s.become w (.running q (next r)) with device := d } :
        State σ ω κ ρ ε α Q).phase w = .running q (next r) :=
      (phase_become w w _).trans (if_pos rfl)
    obtain ⟨t, hrun, hlock, hothers, hanswered⟩ := ih r (h.call hw hr) hnext
    refine ⟨t, (Run.tail (.refl s) (.call hw hr)).trans hrun, hlock, fun w' hne => ?_, hanswered⟩
    exact (hothers w' hne).trans ((phase_become w w' _).trans (if_neg hne))

/-- **No request is stuck**: from every safe state there is a run that answers it. -/
theorem Safe.exists_answer (hserves : Serves sv D spec) {w : ω} {q : Q} (h : Safe sv D spec s)
    (hw : s.phase w = .waiting q ∨ ∃ p, s.phase w = .running q p) :
    ∃ t, Run sv D s t ∧ (w, q, sv.alone spec q) ∈ t.answered := by
  rcases hw with hw | ⟨p, hw⟩
  · cases hearly : sv.early q with
    | some x =>
      refine ⟨_, .tail (.refl s) (.settle hw hearly), ?_⟩
      rw [alone, hearly, Option.getD_some]
      exact List.mem_cons_self
    | none =>
      -- once whoever is at the device has released the lock, the worker takes it
      have hfree : ∃ t, Run sv D s t ∧ t.lock = none ∧ t.phase w = .waiting q := by
        cases hlock : s.lock with
        | none => exact ⟨s, .refl s, hlock, hw⟩
        | some w' =>
          obtain ⟨q', p, hp⟩ := h.held w' hlock
          obtain ⟨t, hrun, hnone, hothers, -⟩ := h.exists_release hserves hp
          refine ⟨t, hrun, hnone, (hothers w ?_).trans hw⟩
          rintro rfl
          rw [hw] at hp
          cases hp
      obtain ⟨t, hrun, hnone, hwait⟩ := hfree
      have ht := h.run hserves hrun
      have hbody : ({ t.become w (.running q (sv.body q)) with lock := some w } :
          State σ ω κ ρ ε α Q).phase w = .running q (sv.body q) :=
        (phase_become w w _).trans (if_pos rfl)
      obtain ⟨u, hrun', -, -, hanswered⟩ :=
        (ht.acquire hserves hwait hearly hnone).exists_release hserves hbody
      refine ⟨u, (hrun.tail (.acquire hwait hearly hnone ht.sound)).trans hrun', ?_⟩
      rw [hanswered]
      exact List.mem_cons_self
  · obtain ⟨t, hrun, -, -, hanswered⟩ := h.exists_release hserves hw
    refine ⟨t, hrun, ?_⟩
    rw [hanswered]
    exact List.mem_cons_self

end Safety

end Service

end ApfsCore
