import ApfsCore.General.FloorSearch
import ApfsCore.General.Panics

/-!
# Walks that call a visitor

A walk hands each leaf entry to a callback, which threads a state of its own. Here the guarded
walk and the descent of a floor search are written with the callback, with the loop over the
items of an index node, and with each step that could panic.

Both are compared with the plain walks, which return the list of the entries delivered: when no
fetch, no item and no call panics, the walk with a callback is the plain walk followed by a fold
of the callback over its entries (`visitWalk_eq`, `visitFollow_eq`).
-/

namespace ApfsCore

variable {ε δ α β γ σ : Type} [DecidableEq α]

/-! ### The walks -/

/-- The guarded walk, at the given depth: `items` prepares the loop over an index node, and
`pick` decodes the child of an item, or skips the item. The number counts the calls that may
still be nested. -/
def visitWalk (fetch : α → Except (Stop ε) (Node β)) (items : List β → Except (Stop ε) (List γ))
    (pick : List β → γ → Except (Stop ε) (Option α)) (visit : σ → β → Except (Stop ε) σ)
    (guard : Stop ε) (w cap : ℕ) :
    ℕ → ℕ → List α × σ → α → Except (Stop ε) (List α × σ)
  | 0, _, _, _ => .error guard
  | fuel + 1, depth, st, a =>
    if depth ≥ cap then .error guard
    else if a ∈ st.1 then .error guard
    else do
      match ← fetch a with
      | .leaf es => do
        let s ← es.foldlM visit st.2
        .ok (a :: st.1, s)
      | .index es => do
        let is ← items es
        is.foldlM
          (fun st i => do
            match ← pick es i with
            | none => .ok st
            | some c => do
              let below ← uadd w depth 1
              visitWalk fetch items pick visit guard w cap fuel below st c)
          (a :: st.1, st.2)

/-- The descent to one leaf. -/
def visitFollow (fetch : α → Except (Stop ε) (Node β))
    (pick : List β → Except (Stop ε) (Option α)) (visit : σ → β → Except (Stop ε) σ)
    (guard : Stop ε) : ℕ → List α → σ → α → Except (Stop ε) σ
  | 0, _, _, _ => .error guard
  | n + 1, seen, s, a =>
    if a ∈ seen then .error guard
    else do
      match ← fetch a with
      | .leaf es => es.foldlM visit s
      | .index es => do
        match ← pick es with
        | none => .ok s
        | some c => visitFollow fetch pick visit guard n (a :: seen) s c

/-! ### Comparison with the plain walks -/

/-- The items of an index node are prepared and decoded without a panic, and yield its
children. -/
def YieldsChildren (items : List β → Except (Stop ε) (List γ))
    (pick : List β → γ → Except (Stop ε) (Option α)) (es : List β) (children : List α) : Prop :=
  ∃ is p, items es = .ok is ∧ (∀ i ∈ is, pick es i = .ok (p i)) ∧ is.filterMap p = children

section Compare

variable {fetch : α → Except δ (Node β)} {fetch' : α → Except (Stop ε) (Node β)}
  {children : List β → List α} {items : List β → Except (Stop ε) (List γ)}
  {pick : List β → γ → Except (Stop ε) (Option α)} {visit : σ → β → Except (Stop ε) σ}
  {g : σ → β → σ} {guard : δ} {φ : δ → Stop ε}

omit [DecidableEq α] in
/-- The loop over the items of a node, given that each child is walked as in the plain walk. -/
private theorem foldlM_items {es : List β} {step : List α → α → Except δ (List α × List β)}
    {step' : List α × σ → α → Except (Stop ε) (List α × σ)} {p : γ → Option α}
    (hstep : ∀ st c, step' st c =
      ((fun r => (r.1, r.2.foldl g st.2)) <$> step st.1 c).mapError φ)
    {is : List γ} (hpick : ∀ i ∈ is, pick es i = .ok (p i)) (st : List α × σ) :
    is.foldlM
        (fun st i => do
          match ← pick es i with
          | none => .ok st
          | some c => step' st c)
        st =
      ((fun r => (r.1, r.2.foldl g st.2)) <$> walkList step st.1 (is.filterMap p)).mapError φ := by
  induction is generalizing st with
  | nil => rfl
  | cons i is ih =>
    rw [List.forall_mem_cons] at hpick
    rw [List.foldlM_cons, hpick.1, ok_bind, List.filterMap_cons]
    cases p i with
    | none => exact ih hpick.2 st
    | some c =>
      dsimp only
      rw [hstep, walkList]
      -- what the first child delivers is folded before what the others deliver
      cases step st.1 c with
      | error d => rfl
      | ok r =>
        obtain ⟨seen, rs⟩ := r
        rw [map_ok, mapError_ok, ok_bind, ih hpick.2, ok_bind]
        dsimp only
        cases walkList step seen (is.filterMap p) with
        | error d => rfl
        | ok r' => simp only [map_ok, mapError_ok, ok_bind, List.foldl_append]

/-- **The walk with a callback** is the plain walk, followed by a fold of the callback. -/
theorem visitWalk_eq {w cap : ℕ} (hcap : cap < 2 ^ w)
    (hfetch : ∀ a, fetch' a = (fetch a).mapError φ)
    (hitems : ∀ a es, fetch a = .ok (.index es) → YieldsChildren items pick es (children es))
    (hvisit : ∀ s e, visit s e = .ok (g s e)) {fuel depth : ℕ} (hfuel : cap - depth ≤ fuel)
    (st : List α × σ) (a : α) :
    visitWalk fetch' items pick visit (φ guard) w cap fuel depth st a =
      ((fun r => (r.1, r.2.foldl g st.2)) <$>
        walk fetch children id guard (cap - depth) st.1 a).mapError φ := by
  induction fuel generalizing depth st a with
  | zero =>
    rw [Nat.le_zero.mp hfuel]
    rfl
  | succ fuel ih =>
    rw [visitWalk, walk_at_depth]
    simp only [id_eq]
    split_ifs with hdepth hseen
    · rfl
    · rfl
    · rw [hfetch a]
      cases hnode : fetch a with
      | error d => rfl
      | ok node =>
        cases node with
        | leaf es =>
          have hfold : es.foldlM visit st.2 = .ok (es.foldl g st.2) :=
            foldlM_eq_ok_foldl (fun s e _ => hvisit s e) _
          simp only [mapError_ok, ok_bind, hfold, map_ok]
        | index es =>
          obtain ⟨is, p, his, hpick, hchildren⟩ := hitems a es hnode
          -- the depth stays below the cap, so counting it up does not overflow
          have hbelow : (uadd w depth 1 : Except (Stop ε) ℕ) = .ok (depth + 1) :=
            uadd_eq (by omega)
          simp only [mapError_ok, ok_bind, his, hbelow]
          rw [foldlM_items (fun st c => ih (by omega) st c) hpick, hchildren]

/-- The state a whole walk ends in is the fold of the callback over what the plain walk
delivers. -/
theorem visitWalk_snd_eq {w cap : ℕ} (hcap : cap < 2 ^ w)
    (hfetch : ∀ a, fetch' a = (fetch a).mapError φ)
    (hitems : ∀ a es, fetch a = .ok (.index es) → YieldsChildren items pick es (children es))
    (hvisit : ∀ s e, visit s e = .ok (g s e)) (s : σ) (a : α) :
    Prod.snd <$> visitWalk fetch' items pick visit (φ guard) w cap cap 0 ([], s) a =
      ((fun rs => rs.foldl g s) <$> Prod.snd <$>
        walk fetch children id guard (cap - 0) [] a).mapError φ := by
  rw [visitWalk_eq hcap hfetch hitems hvisit (Nat.sub_le cap 0)]
  cases walk fetch children id guard (cap - 0) [] a with
  | error d => rfl
  | ok r => rfl

/-- **The descent with a callback** is the plain descent, followed by a fold of the callback. -/
theorem visitFollow_eq {choose : List β → Option α} {choose' : List β → Except (Stop ε) (Option α)}
    (hfetch : ∀ a, fetch' a = (fetch a).mapError φ)
    (hchoose : ∀ es, choose' es = .ok (choose es))
    (hvisit : ∀ s e, visit s e = .ok (g s e)) (n : ℕ) (seen : List α) (s : σ) (a : α) :
    visitFollow fetch' choose' visit (φ guard) n seen s a =
      ((fun rs => rs.foldl g s) <$> follow fetch choose guard n seen a).mapError φ := by
  induction n generalizing seen a with
  | zero => rfl
  | succ n ih =>
    rw [visitFollow, follow]
    split_ifs with hseen
    · rfl
    · rw [hfetch a]
      cases fetch a with
      | error d => rfl
      | ok node =>
        cases node with
        | leaf es =>
          have hfold : es.foldlM visit s = .ok (es.foldl g s) :=
            foldlM_eq_ok_foldl (fun s e _ => hvisit s e) _
          simp only [mapError_ok, ok_bind, hfold, map_ok]
        | index es =>
          simp only [mapError_ok, ok_bind, hchoose es]
          cases choose es with
          | none => rfl
          | some c => exact ih (a :: seen) c

end Compare

end ApfsCore
