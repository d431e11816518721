import ApfsCore.General.FloorSearch
import ApfsCore.General.GuardedWalk

/-!
# Computations that succeed less often

`OkLe x y` says that whatever `x` returns, `y` returns. It is what is left of an equality when `x`
runs on a store that has lost some of what `y` finds: answers may be missing from it, and none is
wrong. The relation goes through sequencing, folds and the two traversals of stored trees, so a
program that reads its store through a gate with this property has it as a whole.
-/

namespace ApfsCore

universe u v

section Outcomes

variable {α β : Type u} {ε : Type v}

/-- Whatever `x` returns, `y` returns. -/
def OkLe (x y : Except ε α) : Prop :=
  ∀ a, x = .ok a → y = .ok a

theorem OkLe.refl (x : Except ε α) : OkLe x x :=
  fun _ h => h

/-- A computation that fails. -/
theorem OkLe.error (e : ε) (y : Except ε α) : OkLe (.error e) y := by
  intro a h
  cases h

theorem OkLe.bind {x y : Except ε α} {f g : α → Except ε β} (h : OkLe x y)
    (hfg : ∀ a, OkLe (f a) (g a)) : OkLe (x >>= f) (y >>= g) := by
  intro b hb
  obtain ⟨a, ha, hf⟩ := bind_eq_ok.mp hb
  exact bind_eq_ok.mpr ⟨a, h a ha, hfg a b hf⟩

theorem OkLe.map {x y : Except ε α} (h : OkLe x y) (f : α → β) : OkLe (f <$> x) (f <$> y) := by
  intro b hb
  obtain ⟨a, ha, hf⟩ := map_eq_ok.mp hb
  exact map_eq_ok.mpr ⟨a, h a ha, hf⟩

/-- A fold whose steps succeed less often. -/
theorem OkLe.foldlM {f g : β → α → Except ε β} (l : List α)
    (h : ∀ b, ∀ a ∈ l, OkLe (f b a) (g b a)) (b : β) : OkLe (l.foldlM f b) (l.foldlM g b) := by
  induction l generalizing b with
  | nil => exact .refl _
  | cons a l ih =>
    rw [List.foldlM_cons, List.foldlM_cons]
    refine (h b a List.mem_cons_self).bind fun b' => ih (fun b a' ha' => ?_) b'
    exact h b a' (List.mem_cons_of_mem a ha')

theorem OkLe.mapM {f g : α → Except ε β} (l : List α) (h : ∀ a, OkLe (f a) (g a)) :
    OkLe (l.mapM f) (l.mapM g) := by
  induction l with
  | nil => exact .refl _
  | cons a l ih =>
    rw [List.mapM_cons, List.mapM_cons]
    exact (h a).bind fun b => ih.bind fun bs => .refl _

end Outcomes

section Traversals

variable {α β κ : Type u} {ε : Type v} {fetch fetch' : α → Except ε (Node β)}

private theorem walkList_okLe {step step' : List κ → α → Except ε (List κ × List β)}
    (h : ∀ seen a, OkLe (step seen a) (step' seen a)) (seen : List κ) (cs : List α) :
    OkLe (walkList step seen cs) (walkList step' seen cs) := by
  induction cs generalizing seen with
  | nil => exact .refl _
  | cons c cs ih =>
    rw [walkList, walkList]
    exact (h seen c).bind fun p => (ih p.1).bind fun p' => .refl _

/-- A guarded walk of a store that fetches less often. -/
theorem walk_okLe [DecidableEq κ] {children : List β → List α} {key : α → κ} {guard : ε}
    (h : ∀ a, OkLe (fetch a) (fetch' a)) (n : ℕ) (seen : List κ) (a : α) :
    OkLe (walk fetch children key guard n seen a) (walk fetch' children key guard n seen a) := by
  induction n generalizing seen a with
  | zero => exact .refl _
  | succ n ih =>
    rw [walk, walk]
    split_ifs
    · exact .refl _
    · refine (h a).bind fun node => ?_
      cases node with
      | leaf es => exact .refl _
      | index es => exact walkList_okLe ih _ _

/-- A descent in a store that fetches less often. -/
theorem follow_okLe [DecidableEq α] {pick : List β → Option α} {guard : ε}
    (h : ∀ a, OkLe (fetch a) (fetch' a)) (n : ℕ) (seen : List α) (a : α) :
    OkLe (follow fetch pick guard n seen a) (follow fetch' pick guard n seen a) := by
  induction n generalizing seen a with
  | zero => exact .refl _
  | succ n ih =>
    rw [follow, follow]
    split_ifs
    · exact .refl _
    · refine (h a).bind fun node => ?_
      cases node with
      | leaf es => exact .refl _
      | index es =>
        dsimp only
        cases pick es with
        | none => exact .refl _
        | some c => exact ih _ c

end Traversals

end ApfsCore
