import ApfsCore.General.Outcome
import Mathlib.Data.List.Nodup
import Mathlib.Data.List.Forall2

/-!
# Guarded walks over trees stored by address

A tree is stored as nodes that are fetched by address: a `Node` is a leaf or an index
node, both with a list of entries, and `children` names the addresses an index node leads
to. Nothing says that what is stored really is a tree, so a reader walks it with two
guards: a cap on the depth and a set of visited keys (`walk`). Both guards stop the walk
with the same error.

`explore` is the same traversal without the visited-set. It says what the stored graph
unfolds to from an address: the addresses met, in order, and the entries of the leaves
met, in order. The main result `walk_eq_ok_iff` is that the guarded walk succeeds exactly
when the unfolding does and meets no key twice, and that it then delivers exactly the
entries of the unfolding. Everything else about guarded walks is proved on `explore`:

* `explore_prune` compares the walk with one that skips some children of index nodes;
* `walk_okEq` compares the walks of two stores.
-/

namespace ApfsCore

universe u v

/-- A stored node: a leaf or an index node, with its entries. -/
inductive Node (β : Type u) where
  | leaf (entries : List β)
  | index (entries : List β)
  deriving DecidableEq

variable {α β κ : Type u} {ε : Type v}

/-! ### The guarded walk -/

/-- Run `step` on each address in turn, threading the visited keys and concatenating the
entries delivered. -/
def walkList (step : List κ → α → Except ε (List κ × List β)) :
    List κ → List α → Except ε (List κ × List β)
  | seen, [] => .ok (seen, [])
  | seen, a :: as => do
    let (seen₁, rs₁) ← step seen a
    let (seen₂, rs₂) ← walkList step seen₁ as
    .ok (seen₂, rs₁ ++ rs₂)

/-- Walk the graph stored by `fetch` from an address, at most `n` levels deep, stopping
with `guard` when the depth runs out or a key is met a second time. -/
def walk [DecidableEq κ] (fetch : α → Except ε (Node β)) (children : List β → List α)
    (key : α → κ) (guard : ε) : ℕ → List κ → α → Except ε (List κ × List β)
  | 0, _, _ => .error guard
  | n + 1, seen, a =>
    if key a ∈ seen then .error guard
    else do
      match ← fetch a with
      | .leaf es => .ok (key a :: seen, es)
      | .index es => walkList (walk fetch children key guard n) (key a :: seen) (children es)

/-- The recursion of a guarded walk written with the depth reached instead of the levels
left, as a program with a depth cap has it. -/
theorem walk_at_depth [DecidableEq κ] (fetch : α → Except ε (Node β))
    (children : List β → List α) (key : α → κ) (guard : ε) (cap depth : ℕ) (seen : List κ)
    (a : α) :
    walk fetch children key guard (cap - depth) seen a =
      if depth ≥ cap then .error guard
      else if key a ∈ seen then .error guard
      else fetch a >>= fun node =>
        match node with
        | .leaf es => .ok (key a :: seen, es)
        | .index es =>
          walkList (walk fetch children key guard (cap - (depth + 1))) (key a :: seen)
            (children es) := by
  split_ifs with hdepth hmem
  · have h : cap - depth = 0 := by omega
    rw [h]
    rfl
  · -- below the cap a level is left, so the recursion unfolds once
    obtain ⟨n, hn⟩ : ∃ n, cap - depth = n + 1 := ⟨cap - depth - 1, by omega⟩
    rw [hn, walk, if_pos hmem]
  · obtain ⟨n, hn⟩ : ∃ n, cap - depth = n + 1 := ⟨cap - depth - 1, by omega⟩
    have hn' : cap - (depth + 1) = n := by omega
    rw [hn, hn', walk, if_neg hmem]

private theorem walkList_errorsIn {P : ε → Prop}
    {step : List κ → α → Except ε (List κ × List β)}
    (h : ∀ seen a, ErrorsIn P (step seen a)) (seen : List κ) (cs : List α) :
    ErrorsIn P (walkList step seen cs) := by
  induction cs generalizing seen with
  | nil => exact .ok _
  | cons c cs ih =>
    rw [walkList]
    exact (h seen c).bind fun p _ => (ih p.1).bind fun p' _ => .ok _

/-- A walk fails as its guard or as a fetch. -/
theorem walk_errorsIn [DecidableEq κ] {P : ε → Prop} {fetch : α → Except ε (Node β)}
    {children : List β → List α} {key : α → κ} {guard : ε} (hguard : P guard)
    (hfetch : ∀ a, ErrorsIn P (fetch a)) (n : ℕ) (seen : List κ) (a : α) :
    ErrorsIn P (walk fetch children key guard n seen a) := by
  induction n generalizing seen a with
  | zero => exact .error hguard
  | succ n ih =>
    rw [walk]
    refine .ite (.error hguard) ((hfetch a).bind fun node _ => ?_)
    cases node with
    | leaf es => exact .ok _
    | index es => exact walkList_errorsIn ih _ _

/-! ### The unfolding -/

/-- What the stored graph unfolds to from an address, at most `n` levels deep: the
addresses met in order, and the entries of the leaves met in order. -/
def explore (fetch : α → Except ε (Node β)) (children : List β → List α) (guard : ε) :
    ℕ → α → Except ε (List α × List β)
  | 0, _ => .error guard
  | n + 1, a => do
    match ← fetch a with
    | .leaf es => .ok ([a], es)
    | .index es => do
      let ps ← (children es).mapM (explore fetch children guard n)
      .ok (a :: ps.flatMap Prod.fst, ps.flatMap Prod.snd)

/-- The leaf entries below an address (none when the unfolding fails). -/
def recordsBelow (fetch : α → Except ε (Node β)) (children : List β → List α) (guard : ε)
    (n : ℕ) (a : α) : List β :=
  match explore fetch children guard n a with
  | .ok (_, rs) => rs
  | .error _ => []

/-- Every node met from an address within `n` levels satisfies `P`, which is also told how
many levels remain below the node. -/
def ForallNode (fetch : α → Except ε (Node β)) (children : List β → List α)
    (P : ℕ → α → Node β → Prop) : ℕ → α → Prop
  | 0, _ => True
  | n + 1, a => ∀ node, fetch a = .ok node →
      P n a node ∧ ∀ es, node = .index es → ∀ c ∈ children es, ForallNode fetch children P n c

section Explore

variable {fetch : α → Except ε (Node β)} {children : List β → List α} {guard : ε}

theorem ForallNode.of_leaf {P : ℕ → α → Node β → Prop} {n : ℕ} {a : α} {es : List β}
    (hf : fetch a = .ok (.leaf es)) (hP : P n a (.leaf es)) :
    ForallNode fetch children P (n + 1) a := by
  intro node hnode
  rw [hf, Except.ok.injEq] at hnode
  subst hnode
  exact ⟨hP, fun es' h => by cases h⟩

theorem ForallNode.of_index {P : ℕ → α → Node β → Prop} {n : ℕ} {a : α} {es : List β}
    (hf : fetch a = .ok (.index es)) (hP : P n a (.index es))
    (hc : ∀ c ∈ children es, ForallNode fetch children P n c) :
    ForallNode fetch children P (n + 1) a := by
  intro node hnode
  rw [hf, Except.ok.injEq] at hnode
  subst hnode
  refine ⟨hP, fun es' h => ?_⟩
  cases h
  exact hc

theorem ForallNode.imp {P Q : ℕ → α → Node β → Prop} (hPQ : ∀ m a node, P m a node → Q m a node)
    {n : ℕ} {a : α} (h : ForallNode fetch children P n a) :
    ForallNode fetch children Q n a := by
  induction n generalizing a with
  | zero => trivial
  | succ n ih =>
    intro node hnode
    obtain ⟨hP, hchildren⟩ := h node hnode
    exact ⟨hPQ n a node hP, fun es hes c hc => ih (hchildren es hes c hc)⟩

/-- `mapM` succeeds exactly when every call does, and collects the values in order. -/
theorem mapM_eq_ok {f : α → Except ε β} {l : List α} {bs : List β} :
    l.mapM f = .ok bs ↔ List.Forall₂ (fun a b => f a = .ok b) l bs := by
  induction l generalizing bs with
  | nil =>
    rw [List.mapM_nil, List.forall₂_nil_left_iff]
    constructor
    · intro h
      cases h
      rfl
    · rintro rfl
      rfl
  | cons a l ih =>
    rw [List.mapM_cons, bind_eq_ok, List.forall₂_cons_left_iff]
    constructor
    · rintro ⟨b, hb, h⟩
      obtain ⟨bs', hbs, h⟩ := bind_eq_ok.mp h
      cases h
      exact ⟨b, bs', hb, ih.mp hbs, rfl⟩
    · rintro ⟨b, bs', hb, hbs, rfl⟩
      exact ⟨b, hb, bind_eq_ok.mpr ⟨bs', ih.mpr hbs, rfl⟩⟩

/-- Each element of the first of two related lists has a partner in the second. -/
theorem exists_of_forall₂_mem {R : α → β → Prop} {l : List α} {l' : List β}
    (h : List.Forall₂ R l l') {a : α} (ha : a ∈ l) : ∃ b ∈ l', R a b := by
  induction h with
  | nil => simp at ha
  | @cons a₁ b₁ l l' hab _ ih =>
    rcases List.mem_cons.mp ha with rfl | ha
    · exact ⟨b₁, List.mem_cons_self, hab⟩
    · obtain ⟨b, hb, hR⟩ := ih ha
      exact ⟨b, List.mem_cons_of_mem _ hb, hR⟩

/-- If each element of a list has a partner, there is a related list. -/
theorem exists_forall₂_of_forall_mem {R : α → β → Prop} {l : List α}
    (h : ∀ a ∈ l, ∃ b, R a b) : ∃ l', List.Forall₂ R l l' := by
  induction l with
  | nil => exact ⟨[], .nil⟩
  | cons a l ih =>
    rw [List.forall_mem_cons] at h
    obtain ⟨b, hb⟩ := h.1
    obtain ⟨l', hl'⟩ := ih h.2
    exact ⟨b :: l', .cons hb hl'⟩

/-- Inversion for one level of the unfolding. -/
theorem explore_succ_eq_ok {n : ℕ} {a : α} {as : List α} {rs : List β} :
    explore fetch children guard (n + 1) a = .ok (as, rs) ↔
      (fetch a = .ok (.leaf rs) ∧ as = [a]) ∨
      ∃ es ps, fetch a = .ok (.index es) ∧
        List.Forall₂ (fun c p => explore fetch children guard n c = .ok p) (children es) ps ∧
        as = a :: ps.flatMap Prod.fst ∧ rs = ps.flatMap Prod.snd := by
  rw [explore, bind_eq_ok]
  constructor
  · rintro ⟨node, hf, h⟩
    cases node with
    | leaf es =>
      cases h
      exact .inl ⟨hf, rfl⟩
    | index es =>
      obtain ⟨ps, hps, h⟩ := bind_eq_ok.mp h
      cases h
      exact .inr ⟨es, ps, hf, mapM_eq_ok.mp hps, rfl, rfl⟩
  · rintro (⟨hf, rfl⟩ | ⟨es, ps, hf, hps, rfl, rfl⟩)
    · exact ⟨_, hf, rfl⟩
    · exact ⟨_, hf, bind_eq_ok.mpr ⟨ps, mapM_eq_ok.mpr hps, rfl⟩⟩

theorem recordsBelow_of_explore {n : ℕ} {a : α} {p : List α × List β}
    (h : explore fetch children guard n a = .ok p) :
    recordsBelow fetch children guard n a = p.2 := by
  rw [recordsBelow, h]

/-- The entries delivered below an index node are those below its children, in order. -/
theorem flatMap_snd_of_explore {n : ℕ} {cs : List α} {ps : List (List α × List β)}
    (h : List.Forall₂ (fun c p => explore fetch children guard n c = .ok p) cs ps) :
    ps.flatMap Prod.snd = cs.flatMap (recordsBelow fetch children guard n) := by
  induction h with
  | nil => rfl
  | cons hp _ ih => rw [List.flatMap_cons, List.flatMap_cons, ih, recordsBelow_of_explore hp]

end Explore

/-! ### The walk is the unfolding, when no key is met twice -/

/-- The keys `ks` are pairwise distinct and none has been seen. -/
def Fresh (seen ks : List κ) : Prop :=
  ks.Nodup ∧ ∀ k ∈ ks, k ∉ seen

theorem fresh_nil (seen : List κ) : Fresh seen [] :=
  ⟨List.nodup_nil, by simp⟩

theorem fresh_cons {seen ks : List κ} {k : κ} :
    Fresh seen (k :: ks) ↔ k ∉ seen ∧ Fresh (k :: seen) ks := by
  simp only [Fresh, List.nodup_cons, List.mem_cons, forall_eq_or_imp, not_or]
  constructor
  · rintro ⟨⟨hk, hnd⟩, hks, hall⟩
    exact ⟨hks, hnd, fun x hx => ⟨fun h => hk (h ▸ hx), hall x hx⟩⟩
  · rintro ⟨hks, hnd, hall⟩
    exact ⟨⟨fun h => (hall k h).1 rfl, hnd⟩, hks, fun x hx => (hall x hx).2⟩

theorem fresh_append {seen ks ks' : List κ} :
    Fresh seen (ks ++ ks') ↔ Fresh seen ks ∧ Fresh (ks.reverse ++ seen) ks' := by
  induction ks generalizing seen with
  | nil => simp [fresh_nil]
  | cons k ks ih =>
    rw [List.cons_append, fresh_cons, ih, fresh_cons, and_assoc, List.reverse_cons,
      List.append_assoc, List.singleton_append]

section Walk

variable {fetch : α → Except ε (Node β)} {children : List β → List α} {key : α → κ}
  {guard : ε}

/-- One level of `walk_eq_ok_iff`: if each address is walked as it unfolds, so is a list of
addresses. -/
private theorem walkList_eq_ok_iff {step : List κ → α → Except ε (List κ × List β)}
    {unfold : α → Except ε (List α × List β)}
    (hstep : ∀ seen a seen' rs, step seen a = .ok (seen', rs) ↔ ∃ as, unfold a = .ok (as, rs) ∧
      Fresh seen (as.map key) ∧ seen' = (as.map key).reverse ++ seen)
    {cs : List α} {seen seen' : List κ} {rs : List β} :
    walkList step seen cs = .ok (seen', rs) ↔
      ∃ ps, List.Forall₂ (fun c p => unfold c = .ok p) cs ps ∧
        Fresh seen ((ps.flatMap Prod.fst).map key) ∧
        seen' = ((ps.flatMap Prod.fst).map key).reverse ++ seen ∧
        rs = ps.flatMap Prod.snd := by
  induction cs generalizing seen seen' rs with
  | nil =>
    simp only [walkList, List.forall₂_nil_left_iff, exists_eq_left, List.flatMap_nil,
      List.map_nil, List.reverse_nil, List.nil_append, fresh_nil, true_and]
    constructor
    · intro h
      cases h
      exact ⟨rfl, rfl⟩
    · rintro ⟨rfl, rfl⟩
      rfl
  | cons c cs ih =>
    rw [walkList, bind_eq_ok]
    constructor
    · rintro ⟨⟨seen₁, rs₁⟩, h₁, h⟩
      obtain ⟨⟨seen₂, rs₂⟩, h₂, h⟩ := bind_eq_ok.mp h
      cases h
      -- the rest of the list is walked with the keys of the first address already seen
      obtain ⟨as, hu, hfr, rfl⟩ := (hstep _ _ _ _).mp h₁
      obtain ⟨ps, hps, hfr', rfl, rfl⟩ := ih.mp h₂
      refine ⟨(as, rs₁) :: ps, .cons hu hps, ?_, ?_, rfl⟩
      · rw [List.flatMap_cons, List.map_append, fresh_append]
        exact ⟨hfr, hfr'⟩
      · simp [List.map_append, List.reverse_append, List.append_assoc]
    · rintro ⟨ps, hps, hfr, rfl, rfl⟩
      obtain ⟨⟨as, rs₁⟩, ps', hu, hps', rfl⟩ := List.forall₂_cons_left_iff.mp hps
      rw [List.flatMap_cons, List.map_append, fresh_append] at hfr
      refine ⟨_, (hstep _ _ _ _).mpr ⟨as, hu, hfr.1, rfl⟩, bind_eq_ok.mpr ⟨_, ih.mpr
        ⟨ps', hps', hfr.2, rfl, rfl⟩, ?_⟩⟩
      simp [List.map_append, List.reverse_append, List.append_assoc]

/-- **The guarded walk is the unfolding.** The walk succeeds exactly when the stored graph
unfolds from the address within the depth cap, with no key met twice and none seen before;
it then delivers the entries of the unfolding and adds its keys to the visited ones. -/
theorem walk_eq_ok_iff [DecidableEq κ] {n : ℕ} {seen seen' : List κ} {a : α} {rs : List β} :
    walk fetch children key guard n seen a = .ok (seen', rs) ↔
      ∃ as, explore fetch children guard n a = .ok (as, rs) ∧
        Fresh seen (as.map key) ∧ seen' = (as.map key).reverse ++ seen := by
  induction n generalizing seen seen' a rs with
  | zero =>
    rw [walk]
    simp only [explore]
    constructor
    · intro h
      cases h
    · rintro ⟨as, h, -⟩
      cases h
  | succ n ih =>
    -- the induction is on the levels left; a list of children is walked one level further down
    have hlist := @walkList_eq_ok_iff α β κ ε key _ _ fun seen a seen' rs => @ih seen seen' a rs
    rw [walk]
    split_ifs with hmem
    · -- a key met before: no unfolding that starts here is fresh
      constructor
      · intro h
        cases h
      · rintro ⟨as, hex, hfr, -⟩
        rcases explore_succ_eq_ok.mp hex with ⟨-, rfl⟩ | ⟨es, ps, -, -, rfl, -⟩
        · exact absurd hmem (hfr.2 _ (by simp))
        · exact absurd hmem (hfr.2 _ (by simp))
    · rw [bind_eq_ok]
      constructor
      · rintro ⟨node, hf, h⟩
        cases node with
        | leaf es =>
          cases h
          refine ⟨[a], explore_succ_eq_ok.mpr (.inl ⟨hf, rfl⟩), ?_, rfl⟩
          exact fresh_cons.mpr ⟨hmem, fresh_nil _⟩
        | index es =>
          obtain ⟨ps, hps, hfr, rfl, rfl⟩ := hlist.mp h
          refine ⟨a :: ps.flatMap Prod.fst,
            explore_succ_eq_ok.mpr (.inr ⟨es, ps, hf, hps, rfl, rfl⟩), ?_, by simp⟩
          exact fresh_cons.mpr ⟨hmem, hfr⟩
      · rintro ⟨as, hex, hfr, rfl⟩
        rcases explore_succ_eq_ok.mp hex with ⟨hf, rfl⟩ | ⟨es, ps, hf, hps, rfl, rfl⟩
        · exact ⟨_, hf, rfl⟩
        · refine ⟨_, hf, hlist.mpr ⟨ps, hps, ?_, by simp, rfl⟩⟩
          exact (fresh_cons.mp hfr).2

/-- The case of a walk that starts with nothing visited and keeps only what it delivers. -/
theorem walk_snd_eq_ok_iff [DecidableEq κ] {n : ℕ} {a : α} {rs : List β} :
    ((fun p : List κ × List β => p.2) <$> walk fetch children key guard n [] a) = .ok rs ↔
      ∃ as, explore fetch children guard n a = .ok (as, rs) ∧ (as.map key).Nodup := by
  rw [map_eq_ok]
  constructor
  · rintro ⟨⟨visited, rs'⟩, hwalk, rfl⟩
    obtain ⟨as, hex, hfresh, -⟩ := walk_eq_ok_iff.mp hwalk
    exact ⟨as, hex, hfresh.1⟩
  · rintro ⟨as, hex, hnodup⟩
    exact ⟨((as.map key).reverse ++ [], rs),
      walk_eq_ok_iff.mpr ⟨as, hex, ⟨hnodup, by simp⟩, rfl⟩, rfl⟩

end Walk

/-! ### Skipping children -/

/-- The second list is the first with some elements dropped, all of them `dead`. -/
inductive Prunes (dead : α → Prop) : List α → List α → Prop where
  | nil : Prunes dead [] []
  | keep (a : α) {l l' : List α} : Prunes dead l l' → Prunes dead (a :: l) (a :: l')
  | drop {a : α} {l l' : List α} : dead a → Prunes dead l l' → Prunes dead (a :: l) l'

section Prune

variable {fetch : α → Except ε (Node β)} {full kept : List β → List α} {guard : ε}

/-- One level of `explore_prune`. -/
private theorem forall₂_prune {q : β → Bool} {unfold unfold' : α → Except ε (List α × List β)}
    {dead : α → Prop} {cs cs' : List α} (hcs : Prunes dead cs cs')
    {ps : List (List α × List β)} (hps : List.Forall₂ (fun c p => unfold c = .ok p) cs ps)
    (hdead : ∀ c p, unfold c = .ok p → dead c → p.2.filter q = [])
    (hlive : ∀ c ∈ cs, ∀ p, unfold c = .ok p → ∃ p', unfold' c = .ok p' ∧
      p'.1.Sublist p.1 ∧ p'.2.filter q = p.2.filter q) :
    ∃ ps', List.Forall₂ (fun c p => unfold' c = .ok p) cs' ps' ∧
      (ps'.flatMap Prod.fst).Sublist (ps.flatMap Prod.fst) ∧
      (ps'.flatMap Prod.snd).filter q = (ps.flatMap Prod.snd).filter q := by
  induction hcs generalizing ps with
  | nil =>
    cases hps
    exact ⟨[], .nil, by simp, rfl⟩
  | keep c hl ih =>
    obtain ⟨p, ps₁, hp, hps₁, rfl⟩ := List.forall₂_cons_left_iff.mp hps
    obtain ⟨ps', hps', hsub, hfil⟩ := ih hps₁ fun c hc => hlive c (List.mem_cons_of_mem _ hc)
    obtain ⟨p', hp', hsub', hfil'⟩ := hlive c List.mem_cons_self p hp
    refine ⟨p' :: ps', .cons hp' hps', ?_, ?_⟩
    · rw [List.flatMap_cons, List.flatMap_cons]
      exact hsub'.append hsub
    · rw [List.flatMap_cons, List.flatMap_cons, List.filter_append, List.filter_append, hfil,
        hfil']
  | drop hc hl ih =>
    obtain ⟨p, ps₁, hp, hps₁, rfl⟩ := List.forall₂_cons_left_iff.mp hps
    -- a dropped child contributes addresses to the full walk only, and no entry satisfying `q`
    obtain ⟨ps', hps', hsub, hfil⟩ := ih hps₁ fun c hc => hlive c (List.mem_cons_of_mem _ hc)
    refine ⟨ps', hps', ?_, ?_⟩
    · rw [List.flatMap_cons]
      exact hsub.trans (List.sublist_append_right _ _)
    · rw [List.flatMap_cons, List.filter_append, hdead _ p hp hc, List.nil_append, hfil]

/-- **Pruning loses nothing.** If the graph unfolds from an address, and at every index node
met the kept children are all but some below which no entry satisfies `q`, then the pruned
graph unfolds as well, meets a sublist of the addresses, and delivers the same entries
satisfying `q`, in the same order. -/
theorem explore_prune {q : β → Bool} {n : ℕ} {a : α} {as : List α} {rs : List β}
    (h : explore fetch full guard n a = .ok (as, rs))
    (hprune : ForallNode fetch full (fun m _ node => ∀ es, node = .index es →
      Prunes (fun c => ∀ r ∈ recordsBelow fetch full guard m c, q r = false)
        (full es) (kept es)) n a) :
    ∃ as' rs', explore fetch kept guard n a = .ok (as', rs') ∧ as'.Sublist as ∧
      rs'.filter q = rs.filter q := by
  induction n generalizing a as rs with
  | zero => cases h
  | succ n ih =>
    rcases explore_succ_eq_ok.mp h with ⟨hf, rfl⟩ | ⟨es, ps, hf, hps, rfl, rfl⟩
    · exact ⟨[a], rs, explore_succ_eq_ok.mpr (.inl ⟨hf, rfl⟩), List.Sublist.refl _, rfl⟩
    · obtain ⟨hes, hchildren⟩ := hprune _ hf
      have hlive : ∀ c ∈ full es, ∀ p, explore fetch full guard n c = .ok p →
          ∃ p', explore fetch kept guard n c = .ok p' ∧ p'.1.Sublist p.1 ∧
            p'.2.filter q = p.2.filter q := by
        rintro c hc ⟨as, rs⟩ hp
        obtain ⟨as', rs', h', hsub, hfil⟩ := ih hp (hchildren es rfl c hc)
        exact ⟨(as', rs'), h', hsub, hfil⟩
      -- the kept children are handled by induction, the dropped ones have nothing to deliver
      obtain ⟨ps', hps', hsub, hfil⟩ := forall₂_prune (q := q) (hes es rfl) hps
        (fun c p hp hc => by
          rw [List.filter_eq_nil_iff]
          intro r hr
          rw [hc r (by rwa [recordsBelow_of_explore hp])]
          exact Bool.false_ne_true) hlive
      exact ⟨a :: ps'.flatMap Prod.fst, ps'.flatMap Prod.snd,
        explore_succ_eq_ok.mpr (.inr ⟨es, ps', hf, hps', rfl, rfl⟩), hsub.cons_cons a, hfil⟩

end Prune

/-! ### Two stores -/

section TwoStores

variable {fetch fetch' : α → Except ε (Node β)} {children : List β → List α} {key : α → κ}
  {guard : ε}

private theorem walkList_okEq {step step' : List κ → α → Except ε (List κ × List β)}
    (h : ∀ seen a, OkEq (step seen a) (step' seen a)) (seen : List κ) (cs : List α) :
    OkEq (walkList step seen cs) (walkList step' seen cs) := by
  induction cs generalizing seen with
  | nil => exact OkEq.refl _
  | cons c cs ih =>
    rw [walkList, walkList]
    refine (h seen c).bind fun p => ?_
    exact (ih p.1).bind fun p' => OkEq.refl _

/-- Two stores whose fetches succeed on the same nodes are walked with the same successful
outcomes. -/
theorem walk_okEq [DecidableEq κ] (h : ∀ a, OkEq (fetch a) (fetch' a)) (n : ℕ) (seen : List κ)
    (a : α) :
    OkEq (walk fetch children key guard n seen a) (walk fetch' children key guard n seen a) := by
  induction n generalizing seen a with
  | zero => exact OkEq.refl _
  | succ n ih =>
    rw [walk, walk]
    split_ifs with hmem
    · exact OkEq.refl _
    · refine (h a).bind fun node => ?_
      cases node with
      | leaf es => exact OkEq.refl _
      | index es => exact walkList_okEq (fun seen a => ih seen a) _ _

end TwoStores

end ApfsCore
