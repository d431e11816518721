import ApfsCore.General.GuardedWalk
import Mathlib.Order.Bounds.Basic

/-!
# Floor search in a tree stored by address

A point lookup reads one path of a stored tree instead of all of it: at an index node it
takes the last child whose separator does not exceed the target (or the first child when
all do), until it reaches a leaf. `follow` is that descent, with the same depth cap and
visited-set as the full walk.

When the separators are right (`SearchIndex`: they increase strictly, each is the least key
below its child, and all keys below a child stay under the next separator), the leaf reached
holds the floor of the target among *all* leaf entries of the tree: every entry whose key
does not exceed the target is matched or exceeded, still below the target, by an entry of
that leaf (`follow_floor`). The visited-set never fires on the way, since a stored graph
that unfolds within a finite depth has no cycle.
-/

namespace ApfsCore

universe u v

variable {α β K : Type u} {ε : Type v}

/-! ### The descent -/

/-- Descend from an address along the children `pick` selects, at most `n` levels, and
return the entries of the leaf reached. An index node at which nothing is picked ends the
descent without entries. -/
def follow [DecidableEq α] (fetch : α → Except ε (Node β)) (pick : List β → Option α)
    (guard : ε) : ℕ → List α → α → Except ε (List β)
  | 0, _, _ => .error guard
  | n + 1, seen, a =>
    if a ∈ seen then .error guard
    else do
      match ← fetch a with
      | .leaf es => .ok es
      | .index es =>
        match pick es with
        | none => .ok []
        | some c => follow fetch pick guard n (a :: seen) c

/-- A descent fails as its guard or as a fetch. -/
theorem follow_errorsIn [DecidableEq α] {P : ε → Prop} {fetch : α → Except ε (Node β)}
    {pick : List β → Option α} {guard : ε} (hguard : P guard)
    (hfetch : ∀ a, ErrorsIn P (fetch a)) (n : ℕ) (seen : List α) (a : α) :
    ErrorsIn P (follow fetch pick guard n seen a) := by
  induction n generalizing seen a with
  | zero => exact .error hguard
  | succ n ih =>
    rw [follow]
    refine .ite (.error hguard) ((hfetch a).bind fun node _ => ?_)
    cases node with
    | leaf es => exact .ok es
    | index es =>
      cases hpick : pick es with
      | none => simpa only [hpick] using ErrorsIn.ok []
      | some c => simpa only [hpick] using ih _ c

/-- Scan the entries of an index node, moving to each child in turn until an entry is above
the target. -/
def lastNotAbove (child : β → α) (above : β → Bool) : α → List β → α
  | c, [] => c
  | c, e :: es => if above e then c else lastNotAbove child above (child e) es

/-- The child a floor search follows: the last one not above the target, starting from the
first. -/
def floorChild (child : β → α) (above : β → Bool) : List β → Option α
  | [] => none
  | e :: es => some (lastNotAbove child above (child e) (e :: es))

/-- The scan from `c` either stops at once, before an entry above the target, or ends on an
entry that is not above it and is followed by nothing or by one that is. -/
private theorem lastNotAbove_split (child : β → α) (above : β → Bool) (c : α) (es : List β) :
    (lastNotAbove child above c es = c ∧ ∀ e ∈ es.head?, above e = true) ∨
    ∃ pre e post, es = pre ++ e :: post ∧ lastNotAbove child above c es = child e ∧
      above e = false ∧ ∀ e' ∈ post.head?, above e' = true := by
  induction es generalizing c with
  | nil => exact .inl ⟨rfl, by simp⟩
  | cons e es ih =>
    rw [lastNotAbove]
    split_ifs with h
    · exact .inl ⟨rfl, by simp [h]⟩
    · have he : above e = false := by simpa using h
      right
      rcases ih (child e) with ⟨heq, hhead⟩ | ⟨pre, e', post, rfl, heq, he', hhead⟩
      · exact ⟨[], e, es, rfl, heq, he, hhead⟩
      · exact ⟨e :: pre, e', post, rfl, heq, he', hhead⟩

/-- The child followed belongs to an entry that is the first one or is not above the target,
and the entry after it, if any, is above the target unless that first one already is. -/
theorem floorChild_split {child : β → α} {above : β → Bool} {es : List β} {c : α}
    (h : floorChild child above es = some c) :
    ∃ pre e post, es = pre ++ e :: post ∧ c = child e ∧ (pre = [] ∨ above e = false) ∧
      (above e = true ∨ ∀ e' ∈ post.head?, above e' = true) := by
  cases es with
  | nil => cases h
  | cons e es =>
    cases h
    rcases lastNotAbove_split child above (child e) (e :: es) with
      ⟨heq, hhead⟩ | ⟨pre, e', post, hes, heq, he', hhead⟩
    · exact ⟨[], e, es, rfl, heq, .inl rfl, .inl (hhead e rfl)⟩
    · exact ⟨pre, e', post, hes, heq, .inr he', .inr hhead⟩

/-! ### Search trees -/

variable [LinearOrder K]

/-- The separators of an index node guide a search: they increase strictly, each is the
least key below its child, and the keys below a child stay under the next separator. -/
structure SearchIndex (key : β → K) (child : β → α) (below : α → List β) (es : List β) :
    Prop where
  sorted : es.Pairwise fun e e' => key e < key e'
  least : ∀ e ∈ es, IsLeast {k | ∃ r ∈ below (child e), key r = k} (key e)
  next : es.IsChain fun e e' => ∀ r ∈ below (child e), key r < key e'

/-- The least key of a list, by inspection of its elements. -/
theorem isLeast_keys_iff {key : β → K} {l : List β} {m : K} :
    IsLeast {k | ∃ r ∈ l, key r = k} m ↔ (∃ r ∈ l, key r = m) ∧ ∀ r ∈ l, m ≤ key r := by
  refine and_congr Iff.rfl ⟨fun h r hr => h ⟨r, hr, rfl⟩, ?_⟩
  rintro h _ ⟨r, hr, rfl⟩
  exact h r hr

/-- A node of a search tree: leaf keys increase strictly, and index nodes are
`SearchIndex`. -/
def SearchNode (key : β → K) (child : β → α) (below : α → List β) : Node β → Prop
  | .leaf es => es.Pairwise fun e e' => key e < key e'
  | .index es => SearchIndex key child below es

section Search

variable {key : β → K} {child : β → α} {below : α → List β} {es : List β}

/-- All keys below a child stay under every later separator. -/
theorem SearchIndex.pairwise_below (h : SearchIndex key child below es) :
    es.Pairwise fun e e' => ∀ r ∈ below (child e), key r < key e' := by
  have hs := h.sorted
  have hn := h.next
  clear h
  induction es with
  | nil => exact .nil
  | cons e es ih =>
    obtain ⟨-, hs'⟩ := List.pairwise_cons.mp hs
    cases es with
    | nil => simp
    | cons e₁ es =>
      obtain ⟨hfirst, hn'⟩ := List.isChain_cons_cons.mp hn
      refine List.pairwise_cons.mpr ⟨?_, ih hs' hn'⟩
      -- keys under the next separator are under every later one, since separators increase
      obtain ⟨hlt, -⟩ := List.pairwise_cons.mp hs'
      intro e' he' r hr
      rcases List.mem_cons.mp he' with rfl | he'
      · exact hfirst r hr
      · exact (hfirst r hr).trans (hlt e' he')

/-- The leaf entries below a search index are in strictly increasing order if those below
each of its children are. -/
theorem SearchIndex.pairwise_flatMap (h : SearchIndex key child below es)
    (hb : ∀ e ∈ es, (below (child e)).Pairwise fun r r' => key r < key r') :
    ((es.map child).flatMap below).Pairwise fun r r' => key r < key r' := by
  rw [List.flatMap_map, List.pairwise_flatMap]
  refine ⟨hb, h.pairwise_below.imp_of_mem ?_⟩
  intro e e' _ he' hlt r hr r' hr'
  exact (hlt r hr).trans_le ((h.least e' he').2 ⟨r', hr', rfl⟩)

end Search

section Follow

variable {fetch : α → Except ε (Node β)} {guard : ε} {key : β → K} {child : β → α}

/-- The tree stored from an address, at most `n` levels deep, is a search tree. -/
def SearchTree (fetch : α → Except ε (Node β)) (guard : ε) (key : β → K) (child : β → α) :
    ℕ → α → Prop :=
  ForallNode fetch (List.map child) fun m _ node =>
    SearchNode key child (recordsBelow fetch (List.map child) guard m) node

/-- The leaf entries of a search tree are in strictly increasing order of key. -/
theorem SearchTree.pairwise_records {n : ℕ} {a : α} {as : List α} {rs : List β}
    (hs : SearchTree fetch guard key child n a)
    (hex : explore fetch (List.map child) guard n a = .ok (as, rs)) :
    rs.Pairwise fun r r' => key r < key r' := by
  induction n generalizing a as rs with
  | zero => cases hex
  | succ n ih =>
    rcases explore_succ_eq_ok.mp hex with ⟨hf, rfl⟩ | ⟨es, ps, hf, hps, rfl, rfl⟩
    · exact (hs _ hf).1
    · obtain ⟨hnode, hchildren⟩ := hs _ hf
      rw [flatMap_snd_of_explore hps]
      refine SearchIndex.pairwise_flatMap hnode fun e he => ?_
      have hc : child e ∈ es.map child := List.mem_map_of_mem he
      obtain ⟨p, -, hp⟩ := exists_of_forall₂_mem hps hc
      rw [recordsBelow_of_explore hp]
      exact ih (hchildren es rfl _ hc) hp

/-- A set of visited addresses is behind the address `a` when unfolding any of them takes
strictly more levels than unfolding `a`. -/
private def Behind (fetch : α → Except ε (Node β)) (child : β → α) (guard : ε)
    (seen : List α) (a : α) : Prop :=
  ∀ s ∈ seen, ∀ n p, explore fetch (List.map child) guard n s = .ok p →
    ∃ m < n, ∃ q, explore fetch (List.map child) guard m a = .ok q

/-- An address that unfolds is not behind itself. -/
private theorem Behind.not_mem {seen : List α} {a : α}
    (h : Behind fetch child guard seen a) {n : ℕ} {p : List α × List β}
    (hp : explore fetch (List.map child) guard n a = .ok p) : a ∉ seen := by
  intro ha
  induction n using Nat.strong_induction_on generalizing p with
  | _ n ih =>
    obtain ⟨m, hm, q, hq⟩ := h a ha n p hp
    exact ih m hm hq

/-- Unfolding an index node takes one level more than unfolding any of its children. -/
private theorem explore_child {es : List β} {a c : α} (hf : fetch a = .ok (.index es))
    (hc : c ∈ es.map child) {n : ℕ} {p : List α × List β}
    (hp : explore fetch (List.map child) guard n a = .ok p) :
    ∃ m < n, ∃ q, explore fetch (List.map child) guard m c = .ok q := by
  cases n with
  | zero => cases hp
  | succ n =>
    rcases explore_succ_eq_ok.mp hp with ⟨hf', -⟩ | ⟨es', ps, hf', hps, -, -⟩
    · rw [hf] at hf'
      cases hf'
    · rw [hf] at hf'
      cases hf'
      obtain ⟨q, -, hq⟩ := exists_of_forall₂_mem hps hc
      exact ⟨n, n.lt_succ_self, q, hq⟩

/-- Going down to a child keeps the visited addresses behind. -/
private theorem Behind.descend {seen : List α} {es : List β} {a c : α}
    (h : Behind fetch child guard seen a) (hf : fetch a = .ok (.index es))
    (hc : c ∈ es.map child) : Behind fetch child guard (a :: seen) c := by
  intro s hs n p hp
  rcases List.mem_cons.mp hs with rfl | hs
  · exact explore_child hf hc hp
  · obtain ⟨m, hm, q, hq⟩ := h s hs n p hp
    obtain ⟨m', hm', q', hq'⟩ := explore_child hf hc hq
    exact ⟨m', hm'.trans hm, q', hq'⟩

/-- The entries `ls` cover the floor of `t` among `rs`: they are among `rs`, and every entry
of `rs` not above `t` is one of them or lies strictly below one of them not above `t`. -/
def CoversFloor (key : β → K) (t : K) (ls rs : List β) : Prop :=
  (∀ r ∈ ls, r ∈ rs) ∧ ∀ r ∈ rs, key r ≤ t → ∃ r' ∈ ls, (r' = r ∨ key r < key r') ∧ key r' ≤ t

/-- At a search index, the child a floor search follows covers the floor for the node: the
children before it hold smaller keys than its least one, those after it only keys above the
target. -/
private theorem SearchIndex.coversFloor {below : α → List β} {es : List β} {c : α} {t : K}
    (h : SearchIndex key child below es)
    (hc : floorChild child (fun e => decide (t < key e)) es = some c) {ls : List β}
    (hls : CoversFloor key t ls (below c)) :
    CoversFloor key t ls ((es.map child).flatMap below) := by
  obtain ⟨pre, e, post, rfl, rfl, hpre, hpost⟩ := floorChild_split hc
  have hsorted := h.sorted
  have hbelow := h.pairwise_below
  rw [List.pairwise_append, List.pairwise_cons] at hsorted hbelow
  have he : e ∈ pre ++ e :: post := by simp
  refine ⟨fun r hr => List.mem_flatMap.mpr ⟨child e, List.mem_map_of_mem he, hls.1 r hr⟩, ?_⟩
  intro r hmem_r hrt
  obtain ⟨c', hc', hr⟩ := List.mem_flatMap.mp hmem_r
  obtain ⟨e', he', rfl⟩ := List.mem_map.mp hc'
  have hle : key e' ≤ key r := (h.least e' he').2 ⟨r, hr, rfl⟩
  rcases List.mem_append.mp he' with hmem | hmem
  · -- an earlier child: the least key of the child followed is larger, and not above `t`
    have hne : decide (t < key e) = false := hpre.resolve_left (List.ne_nil_of_mem hmem)
    have het : key e ≤ t := not_lt.mp (of_decide_eq_false hne)
    obtain ⟨r₀, hr₀, hkey⟩ := (h.least e he).1
    obtain ⟨r', hr', hcmp, hr't⟩ := hls.2 r₀ hr₀ (hkey.trans_le het)
    have hlt : key r < key r₀ := hkey ▸ hbelow.2.2 e' hmem e List.mem_cons_self r hr
    refine ⟨r', hr', .inr ?_, hr't⟩
    rcases hcmp with rfl | hcmp
    · exact hlt
    · exact hlt.trans hcmp
  · rcases List.mem_cons.mp hmem with rfl | hmem
    · exact hls.2 r hr hrt
    · -- a later child: all its keys are above `t`
      have het : t < key e' := by
        rcases hpost with hpost | hpost
        · exact (of_decide_eq_true hpost).trans (hsorted.2.1.1 e' hmem)
        · obtain ⟨e₁, post', rfl⟩ := List.exists_cons_of_ne_nil (List.ne_nil_of_mem hmem)
          have h₁ : t < key e₁ := of_decide_eq_true (hpost e₁ rfl)
          rcases List.mem_cons.mp hmem with rfl | hmem
          · exact h₁
          · exact h₁.trans ((List.pairwise_cons.mp hsorted.2.1.2).1 e' hmem)
      exact absurd (het.trans_le hle) (not_lt.mpr hrt)

private theorem follow_floor_of_behind [DecidableEq α] {n : ℕ} {a : α} {as seen : List α}
    {rs : List β} (hs : SearchTree fetch guard key child n a)
    (hex : explore fetch (List.map child) guard n a = .ok (as, rs))
    (hseen : Behind fetch child guard seen a) (t : K) :
    ∃ ls, follow fetch (floorChild child fun e => decide (t < key e)) guard n seen a = .ok ls ∧
      CoversFloor key t ls rs := by
  induction n generalizing a as seen rs with
  | zero => cases hex
  | succ n ih =>
    -- the visited addresses are all ancestors, so the guard does not fire on the way down
    have hmem : a ∉ seen := hseen.not_mem hex
    rw [follow, if_neg hmem]
    rcases explore_succ_eq_ok.mp hex with ⟨hf, rfl⟩ | ⟨es, ps, hf, hps, rfl, rfl⟩
    · refine ⟨rs, by rw [hf]; rfl, fun r hr => hr, fun r hr hrt => ⟨r, hr, .inl rfl, hrt⟩⟩
    · obtain ⟨hnode, hchildren⟩ := hs _ hf
      rw [hf, ok_bind, flatMap_snd_of_explore hps]
      cases hpick : floorChild child (fun e => decide (t < key e)) es with
      | none =>
        -- nothing is picked at an index node without entries only
        have hes : es = [] := by
          cases es with
          | nil => rfl
          | cons e es => cases hpick
        subst hes
        exact ⟨[], by simp only [hpick], by simp [CoversFloor]⟩
      | some c =>
        have hc : c ∈ es.map child := by
          obtain ⟨pre, e, post, rfl, rfl, -, -⟩ := floorChild_split hpick
          exact List.mem_map_of_mem (by simp)
        obtain ⟨p, -, hp⟩ := exists_of_forall₂_mem hps hc
        obtain ⟨ls, hls, hcov⟩ := ih (hchildren es rfl c hc) hp (hseen.descend hf hc)
        refine ⟨ls, by simpa only [hpick] using hls, ?_⟩
        rw [← recordsBelow_of_explore hp] at hcov
        exact SearchIndex.coversFloor hnode hpick hcov

/-- **Floor search.** In a search tree that unfolds within `n` levels, the descent reaches a
leaf, and that leaf covers the floor of the target among all leaf entries of the tree. -/
theorem follow_floor [DecidableEq α] {n : ℕ} {a : α} {as : List α} {rs : List β}
    (hs : SearchTree fetch guard key child n a)
    (hex : explore fetch (List.map child) guard n a = .ok (as, rs)) (t : K) :
    ∃ ls, follow fetch (floorChild child fun e => decide (t < key e)) guard n [] a = .ok ls ∧
      CoversFloor key t ls rs :=
  follow_floor_of_behind hs hex (fun _ hs => by simp at hs) t

end Follow

/-! ### Two stores -/

/-- Two stores whose fetches succeed on the same nodes are descended with the same successful
outcomes. -/
theorem follow_okEq {α β : Type u} [DecidableEq α] {fetch fetch' : α → Except ε (Node β)}
    {pick : List β → Option α} {guard : ε} (h : ∀ a, OkEq (fetch a) (fetch' a)) (n : ℕ)
    (seen : List α) (a : α) :
    OkEq (follow fetch pick guard n seen a) (follow fetch' pick guard n seen a) := by
  induction n generalizing seen a with
  | zero => exact OkEq.refl _
  | succ n ih =>
    rw [follow, follow]
    split_ifs with hmem
    · exact OkEq.refl _
    · refine (h a).bind fun node => ?_
      cases node with
      | leaf es => exact OkEq.refl _
      | index es =>
        cases hpick : pick es with
        | none => simpa only [hpick] using OkEq.refl _
        | some c => simpa only [hpick] using ih _ c

end ApfsCore
