import ApfsCore.General.GuardedWalk
import Mathlib.Data.List.Lex

/-!
# The graph a guarded walk runs over

The nodes stored by `fetch` form a graph: an index node has an edge to each of its children, in
order. A node is reached from an address along a *position*, the list of the child numbers
taken on the way (`nodeAt`). Nothing keeps the graph from having cycles or shared nodes; an
address is then reached at several positions.

A guarded walk is described on that graph, without its visited-set and without its recursion:

* it succeeds exactly when every address reached can be fetched, is reached at a depth below
  the cap, and is reached at one position only (`exists_explore_iff`);
* it then delivers the entries of the leaves reached, in the order of their positions
  (`LeavesInOrder`), which is the order from left to right.
-/

namespace ApfsCore

universe u v

variable {α β κ : Type u} {ε : Type v}

/-! ### Positions -/

/-- The address at a position, when there is one. -/
def nodeAt (fetch : α → Except ε (Node β)) (children : List β → List α) :
    List ℕ → α → Option α
  | [], a => some a
  | i :: p, a =>
    match fetch a with
    | .ok (.index es) => (children es)[i]?.bind (nodeAt fetch children p)
    | _ => none

/-- The entries `rs` are those of the leaves below an address, from left to right, each leaf
once: there is a list of the leaves with their positions, in lexicographic order. -/
def LeavesInOrder (fetch : α → Except ε (Node β)) (children : List β → List α) (a : α)
    (rs : List β) : Prop :=
  ∃ leaves : List (List ℕ × List β),
    leaves.Pairwise (fun l l' => l.1 < l'.1) ∧
    (∀ p es, (p, es) ∈ leaves ↔
      ∃ x, nodeAt fetch children p a = some x ∧ fetch x = .ok (.leaf es)) ∧
    rs = leaves.flatMap Prod.snd

/-- Every address reached can be fetched and lies fewer than `n` levels deep, and none is
reached twice. -/
structure ReachedOnce (fetch : α → Except ε (Node β)) (children : List β → List α) (n : ℕ)
    (a : α) : Prop where
  fetched : ∀ p x, nodeAt fetch children p a = some x → ∃ node, fetch x = .ok node
  shallow : ∀ p x, nodeAt fetch children p a = some x → p.length < n
  once : ∀ p q x, nodeAt fetch children p a = some x → nodeAt fetch children q a = some x → p = q

section Graph

variable {fetch : α → Except ε (Node β)} {children : List β → List α} {guard : ε} {n : ℕ}
  {a x : α} {as : List α} {rs : List β}

theorem nodeAt_cons_eq_some_iff {i : ℕ} {p : List ℕ} :
    nodeAt fetch children (i :: p) a = some x ↔
      ∃ es c, fetch a = .ok (.index es) ∧ (children es)[i]? = some c ∧
        nodeAt fetch children p c = some x := by
  rw [nodeAt]
  constructor
  · intro h
    split at h
    · rename_i es hf
      obtain ⟨c, hc, hx⟩ := Option.bind_eq_some_iff.mp h
      exact ⟨es, c, hf, hc, hx⟩
    · cases h
  · rintro ⟨es, c, hf, hc, hx⟩
    rw [hf]
    exact Option.bind_eq_some_iff.mpr ⟨c, hc, hx⟩

/-- Below a leaf there is only the leaf. -/
theorem nodeAt_of_leaf {es : List β} (hf : fetch a = .ok (.leaf es)) {p : List ℕ}
    (h : nodeAt fetch children p a = some x) : p = [] ∧ x = a := by
  cases p with
  | nil =>
    cases h
    exact ⟨rfl, rfl⟩
  | cons i p =>
    obtain ⟨es', c, hf', -, -⟩ := nodeAt_cons_eq_some_iff.mp h
    rw [hf] at hf'
    cases hf'

/-! ### The unfolding of the graph -/

/-- The addresses met below an address (none when the unfolding fails). -/
private def metBelow (fetch : α → Except ε (Node β)) (children : List β → List α) (guard : ε)
    (n : ℕ) (a : α) : List α :=
  match explore fetch children guard n a with
  | .ok (as, _) => as
  | .error _ => []

/-- Inversion for one level of the unfolding, in terms of what each child unfolds to. -/
private theorem explore_succ_cases (h : explore fetch children guard (n + 1) a = .ok (as, rs)) :
    (fetch a = .ok (.leaf rs) ∧ as = [a]) ∨
    ∃ es, fetch a = .ok (.index es) ∧
      (∀ c ∈ children es, explore fetch children guard n c =
        .ok (metBelow fetch children guard n c, recordsBelow fetch children guard n c)) ∧
      as = a :: (children es).flatMap (metBelow fetch children guard n) ∧
      rs = (children es).flatMap (recordsBelow fetch children guard n) := by
  rcases explore_succ_eq_ok.mp h with hleaf | ⟨es, ps, hf, hps, rfl, rfl⟩
  · exact .inl hleaf
  · refine .inr ⟨es, hf, ?_⟩
    clear hf h
    -- each child unfolds, to what lies below it
    generalize children es = cs at hps ⊢
    induction hps with
    | nil => exact ⟨fun c hc => absurd hc List.not_mem_nil, rfl, rfl⟩
    | @cons c p cs ps hp _ ih =>
      obtain ⟨as', rs'⟩ := p
      have hmet : metBelow fetch children guard n c = as' := by
        rw [metBelow, hp]
      have hrec : recordsBelow fetch children guard n c = rs' := by
        rw [recordsBelow, hp]
      obtain ⟨hall, has, hrs⟩ := ih
      rw [List.cons.injEq] at has
      refine ⟨List.forall_mem_cons.mpr ⟨?_, hall⟩, ?_, ?_⟩
      · rw [hmet, hrec, hp]
      · rw [List.flatMap_cons, List.flatMap_cons, hmet, has.2]
      · rw [List.flatMap_cons, List.flatMap_cons, hrec, hrs]

/-- What is reached is met by the unfolding, at a depth below the cap. -/
private theorem mem_of_nodeAt (h : explore fetch children guard n a = .ok (as, rs)) {p : List ℕ}
    (hp : nodeAt fetch children p a = some x) :
    x ∈ as ∧ p.length < n ∧ ∃ node, fetch x = .ok node := by
  induction n generalizing a as rs p with
  | zero => cases h
  | succ n ih =>
    rcases explore_succ_cases h with ⟨hf, rfl⟩ | ⟨es, hf, hchildren, rfl, -⟩
    · obtain ⟨rfl, rfl⟩ := nodeAt_of_leaf hf hp
      exact ⟨List.mem_singleton_self _, Nat.succ_pos _, _, hf⟩
    · cases p with
      | nil =>
        cases hp
        exact ⟨List.mem_cons_self, Nat.succ_pos _, _, hf⟩
      | cons i p =>
        obtain ⟨es', c, hf', hc, hx⟩ := nodeAt_cons_eq_some_iff.mp hp
        rw [hf, Except.ok.injEq, Node.index.injEq] at hf'
        subst hf'
        have hmem := List.mem_of_getElem? hc
        obtain ⟨hbelow, hdepth, hnode⟩ := ih (hchildren c hmem) hx
        refine ⟨List.mem_cons_of_mem _ (List.mem_flatMap.mpr ⟨c, hmem, hbelow⟩), ?_, hnode⟩
        rw [List.length_cons]
        omega

/-- What the unfolding meets is reached. -/
private theorem exists_nodeAt_of_mem (h : explore fetch children guard n a = .ok (as, rs))
    (hx : x ∈ as) : ∃ p, nodeAt fetch children p a = some x := by
  induction n generalizing a as rs with
  | zero => cases h
  | succ n ih =>
    rcases explore_succ_cases h with ⟨hf, rfl⟩ | ⟨es, hf, hchildren, rfl, -⟩
    · rw [List.mem_singleton.mp hx]
      exact ⟨[], rfl⟩
    · rcases List.mem_cons.mp hx with rfl | hx
      · exact ⟨[], rfl⟩
      · obtain ⟨c, hc, hbelow⟩ := List.mem_flatMap.mp hx
        obtain ⟨p, hp⟩ := ih (hchildren c hc) hbelow
        obtain ⟨i, hi⟩ := List.mem_iff_getElem?.mp hc
        exact ⟨i :: p, nodeAt_cons_eq_some_iff.mpr ⟨es, c, hf, hi, hp⟩⟩

/-- The unfolding meets no address twice exactly when none is reached twice. -/
private theorem nodup_iff_once (h : explore fetch children guard n a = .ok (as, rs)) :
    as.Nodup ↔ ∀ p q x, nodeAt fetch children p a = some x →
      nodeAt fetch children q a = some x → p = q := by
  induction n generalizing a as rs with
  | zero => cases h
  | succ n ih =>
    rcases explore_succ_cases h with ⟨hf, rfl⟩ | ⟨es, hf, hchildren, rfl, -⟩
    · refine iff_of_true (List.nodup_singleton a) fun p q x hp hq => ?_
      rw [(nodeAt_of_leaf hf hp).1, (nodeAt_of_leaf hf hq).1]
    · -- a position below the node starts with the number of the child it goes through
      have hstep : ∀ i p x, nodeAt fetch children (i :: p) a = some x ↔
          ∃ c, (children es)[i]? = some c ∧ nodeAt fetch children p c = some x := by
        intro i p x
        rw [nodeAt_cons_eq_some_iff]
        constructor
        · rintro ⟨es', c, hf', hc, hx⟩
          rw [hf, Except.ok.injEq, Node.index.injEq] at hf'
          exact ⟨c, hf' ▸ hc, hx⟩
        · rintro ⟨c, hc, hx⟩
          exact ⟨es, c, hf, hc, hx⟩
      rw [List.nodup_cons, List.nodup_flatMap]
      constructor
      · rintro ⟨hroot, hnodup, hdisj⟩ p q x hp hq
        have hbelow : ∀ i p, nodeAt fetch children (i :: p) a ≠ some a := by
          intro i p hp
          obtain ⟨c, hc, hx⟩ := (hstep i p a).mp hp
          have hmem := List.mem_of_getElem? hc
          exact hroot (List.mem_flatMap.mpr ⟨c, hmem, (mem_of_nodeAt (hchildren c hmem) hx).1⟩)
        cases p with
        | nil =>
          cases hp
          cases q with
          | nil => rfl
          | cons j q => exact absurd hq (hbelow j q)
        | cons i p =>
          cases q with
          | nil =>
            cases hq
            exact absurd hp (hbelow i p)
          | cons j q =>
            obtain ⟨c, hc, hx⟩ := (hstep i p x).mp hp
            obtain ⟨c', hc', hx'⟩ := (hstep j q x).mp hq
            have hmem := List.mem_of_getElem? hc
            have hmem' := List.mem_of_getElem? hc'
            have hmet := (mem_of_nodeAt (hchildren c hmem) hx).1
            have hmet' := (mem_of_nodeAt (hchildren c' hmem') hx').1
            obtain ⟨hi, rfl⟩ := List.getElem?_eq_some_iff.mp hc
            obtain ⟨hj, rfl⟩ := List.getElem?_eq_some_iff.mp hc'
            have hpair := List.pairwise_iff_getElem.mp hdisj
            rcases Nat.lt_trichotomy i j with hlt | rfl | hlt
            · exact absurd hmet' fun hm => hpair i j hi hj hlt hmet hm
            · rw [(ih (hchildren _ hmem)).mp (hnodup _ hmem) p q x hx hx']
            · exact absurd hmet fun hm => hpair j i hj hi hlt hmet' hm
      · intro honce
        refine ⟨fun hroot => ?_, fun c hc => ?_, ?_⟩
        · obtain ⟨c, hc, hmet⟩ := List.mem_flatMap.mp hroot
          obtain ⟨p, hp⟩ := exists_nodeAt_of_mem (hchildren c hc) hmet
          obtain ⟨i, hi⟩ := List.mem_iff_getElem?.mp hc
          exact absurd (honce [] (i :: p) a rfl ((hstep i p a).mpr ⟨c, hi, hp⟩))
            (List.cons_ne_nil i p).symm
        · obtain ⟨i, hi⟩ := List.mem_iff_getElem?.mp hc
          refine (ih (hchildren c hc)).mpr fun p q x hp hq => ?_
          have heq := honce (i :: p) (i :: q) x ((hstep i p x).mpr ⟨c, hi, hp⟩)
            ((hstep i q x).mpr ⟨c, hi, hq⟩)
          exact (List.cons.inj heq).2
        · refine List.pairwise_iff_getElem.mpr fun i j hi hj hlt x hx hx' => ?_
          obtain ⟨p, hp⟩ := exists_nodeAt_of_mem (hchildren _ (List.getElem_mem hi)) hx
          obtain ⟨q, hq⟩ := exists_nodeAt_of_mem (hchildren _ (List.getElem_mem hj)) hx'
          have heq := honce (i :: p) (j :: q) x
            ((hstep i p x).mpr ⟨_, List.getElem?_eq_getElem hi, hp⟩)
            ((hstep j q x).mpr ⟨_, List.getElem?_eq_getElem hj, hq⟩)
          exact absurd (List.cons.inj heq).1 hlt.ne

/-- A graph whose addresses can all be fetched, above the depth cap, unfolds. -/
private theorem exists_explore
    (hfetched : ∀ p x, nodeAt fetch children p a = some x → ∃ node, fetch x = .ok node)
    (hshallow : ∀ p x, nodeAt fetch children p a = some x → p.length < n) :
    ∃ as rs, explore fetch children guard n a = .ok (as, rs) := by
  induction n generalizing a with
  | zero => exact absurd (hshallow [] a rfl) (Nat.not_lt_zero _)
  | succ n ih =>
    obtain ⟨node, hf⟩ := hfetched [] a rfl
    cases node with
    | leaf es => exact ⟨[a], es, explore_succ_eq_ok.mpr (.inl ⟨hf, rfl⟩)⟩
    | index es =>
      -- below a child the same holds, one level less deep
      have hchild : ∀ c ∈ children es, ∃ p, explore fetch children guard n c = .ok p := by
        intro c hc
        obtain ⟨i, hi⟩ := List.mem_iff_getElem?.mp hc
        have hdown : ∀ p x, nodeAt fetch children p c = some x →
            nodeAt fetch children (i :: p) a = some x :=
          fun p x hx => nodeAt_cons_eq_some_iff.mpr ⟨es, c, hf, hi, hx⟩
        obtain ⟨as, rs, hex⟩ := ih (fun p x hx => hfetched (i :: p) x (hdown p x hx))
          fun p x hx => Nat.lt_of_succ_lt_succ (hshallow (i :: p) x (hdown p x hx))
        exact ⟨(as, rs), hex⟩
      obtain ⟨ps, hps⟩ := exists_forall₂_of_forall_mem hchild
      exact ⟨_, _, explore_succ_eq_ok.mpr (.inr ⟨es, ps, hf, hps, rfl, rfl⟩)⟩

/-! ### Leaves from left to right -/

/-- The leaves below an address, at most `n` levels deep, with their positions. -/
private def leavesBelow (fetch : α → Except ε (Node β)) (children : List β → List α) :
    ℕ → α → List (List ℕ × List β)
  | 0, _ => []
  | n + 1, a =>
    match fetch a with
    | .ok (.leaf es) => [([], es)]
    | .ok (.index es) => (children es).zipIdx.flatMap fun ci =>
        (leavesBelow fetch children n ci.1).map fun l => (ci.2 :: l.1, l.2)
    | .error _ => []

/-- The leaves are listed in the order of their positions. -/
private theorem pairwise_leavesBelow (n : ℕ) (a : α) :
    (leavesBelow fetch children n a).Pairwise fun l l' => l.1 < l'.1 := by
  induction n generalizing a with
  | zero => exact .nil
  | succ n ih =>
    rw [leavesBelow]
    cases fetch a with
    | error e => exact .nil
    | ok node =>
      cases node with
      | leaf es => exact List.pairwise_singleton _ _
      | index es =>
        refine List.pairwise_flatMap.mpr ⟨fun ci _ => ?_, ?_⟩
        · -- within one child the order is that below the child
          refine List.pairwise_map.mpr ((ih ci.1).imp fun hlt => ?_)
          exact List.cons_lt_cons_iff.mpr (.inr ⟨rfl, hlt⟩)
        · -- positions through different children are ordered by the children's numbers
          have hidx : (children es).zipIdx.Pairwise fun ci cj => ci.2 < cj.2 := by
            refine List.pairwise_iff_getElem.mpr fun i j hi hj hlt => ?_
            rw [List.getElem_zipIdx, List.getElem_zipIdx]
            omega
          refine hidx.imp fun hlt l hl l' hl' => ?_
          obtain ⟨m, -, rfl⟩ := List.mem_map.mp hl
          obtain ⟨m', -, rfl⟩ := List.mem_map.mp hl'
          exact List.cons_lt_cons_iff.mpr (.inl hlt)

/-- The leaves listed are those reached, when nothing is reached below the cap. -/
private theorem mem_leavesBelow_iff
    (hshallow : ∀ p x, nodeAt fetch children p a = some x → p.length < n) {p : List ℕ}
    {es : List β} :
    (p, es) ∈ leavesBelow fetch children n a ↔
      ∃ x, nodeAt fetch children p a = some x ∧ fetch x = .ok (.leaf es) := by
  induction n generalizing a p with
  | zero => exact absurd (hshallow [] a rfl) (Nat.not_lt_zero _)
  | succ n ih =>
    rw [leavesBelow]
    cases hf : fetch a with
    | error e =>
      refine iff_of_false List.not_mem_nil ?_
      rintro ⟨x, hx, hleaf⟩
      cases p with
      | nil =>
        cases hx
        rw [hf] at hleaf
        cases hleaf
      | cons i p =>
        obtain ⟨es', c, hf', -, -⟩ := nodeAt_cons_eq_some_iff.mp hx
        rw [hf] at hf'
        cases hf'
    | ok node =>
      cases node with
      | leaf es' =>
        rw [List.mem_singleton, Prod.mk.injEq]
        constructor
        · rintro ⟨rfl, rfl⟩
          exact ⟨a, rfl, hf⟩
        · rintro ⟨x, hx, hleaf⟩
          obtain ⟨rfl, rfl⟩ := nodeAt_of_leaf hf hx
          rw [hf, Except.ok.injEq, Node.leaf.injEq] at hleaf
          exact ⟨rfl, hleaf.symm⟩
      | index es' =>
        have hchild : ∀ c i, (children es')[i]? = some c →
            ∀ p x, nodeAt fetch children p c = some x → p.length < n :=
          fun c i hi p x hx => Nat.lt_of_succ_lt_succ
            (hshallow (i :: p) x (nodeAt_cons_eq_some_iff.mpr ⟨es', c, hf, hi, hx⟩))
        simp only [List.mem_flatMap, List.mem_map, Prod.exists, Prod.mk.injEq,
          List.mem_zipIdx_iff_getElem?]
        constructor
        · rintro ⟨c, i, hi, q, es'', hq, rfl, rfl⟩
          obtain ⟨x, hx, hleaf⟩ := (ih (hchild c i hi)).mp hq
          exact ⟨x, nodeAt_cons_eq_some_iff.mpr ⟨es', c, hf, hi, hx⟩, hleaf⟩
        · rintro ⟨x, hx, hleaf⟩
          cases p with
          | nil =>
            cases hx
            rw [hf] at hleaf
            cases hleaf
          | cons i q =>
            obtain ⟨es'', c, hf', hi, hx⟩ := nodeAt_cons_eq_some_iff.mp hx
            rw [hf, Except.ok.injEq, Node.index.injEq] at hf'
            subst hf'
            exact ⟨c, i, hi, q, es, (ih (hchild c i hi)).mpr ⟨x, hx, hleaf⟩, rfl, rfl⟩

/-- The unfolding delivers the entries of the leaves listed. -/
private theorem records_eq_leavesBelow
    (h : explore fetch children guard n a = .ok (as, rs)) :
    rs = (leavesBelow fetch children n a).flatMap Prod.snd := by
  induction n generalizing a as rs with
  | zero => cases h
  | succ n ih =>
    rw [leavesBelow]
    rcases explore_succ_cases h with ⟨hf, -⟩ | ⟨es, hf, hchildren, -, rfl⟩
    · rw [hf]
      exact (List.append_nil rs).symm
    · rw [hf]
      have hfst : (children es).zipIdx.map Prod.fst = children es := List.zipIdx_map_fst 0 _
      simp only [List.flatMap_assoc, List.flatMap_map]
      conv_lhs => rw [← hfst, List.flatMap_map]
      refine List.flatMap_congr fun ci hci => ?_
      have hmem : ci.1 ∈ children es := hfst ▸ List.mem_map_of_mem hci
      exact ih (hchildren ci.1 hmem)

/-! ### The walk on the graph -/

/-- **The unfolding on the graph.** It meets no address twice exactly when each address is
reached once, above the cap, and can be fetched. -/
theorem exists_explore_iff :
    (∃ as rs, explore fetch children guard n a = .ok (as, rs) ∧ as.Nodup) ↔
      ReachedOnce fetch children n a := by
  constructor
  · rintro ⟨as, rs, hex, hnodup⟩
    exact
      { fetched := fun p x hx => (mem_of_nodeAt hex hx).2.2
        shallow := fun p x hx => (mem_of_nodeAt hex hx).2.1
        once := (nodup_iff_once hex).mp hnodup }
  · intro h
    obtain ⟨as, rs, hex⟩ := exists_explore h.fetched h.shallow
    exact ⟨as, rs, hex, (nodup_iff_once hex).mpr h.once⟩

/-- The unfolding delivers the entries of the leaves reached, from left to right. -/
theorem leavesInOrder_of_explore (h : explore fetch children guard n a = .ok (as, rs)) :
    LeavesInOrder fetch children a rs :=
  ⟨leavesBelow fetch children n a, pairwise_leavesBelow n a,
    fun _ _ => mem_leavesBelow_iff fun _ _ hx => (mem_of_nodeAt h hx).2.1,
    records_eq_leavesBelow h⟩

end Graph

/-! ### Two stores -/

section TwoStores

variable {fetch fetch' : α → Except ε (Node β)} {children : List β → List α} {a : α}

/-- Two stores with the same index nodes have the same positions. -/
theorem nodeAt_congr (hindex : ∀ x es, fetch x = .ok (.index es) ↔ fetch' x = .ok (.index es))
    (p : List ℕ) : nodeAt fetch children p a = nodeAt fetch' children p a := by
  induction p generalizing a with
  | nil => rfl
  | cons i p ih =>
    refine Option.ext fun x => ?_
    rw [nodeAt_cons_eq_some_iff, nodeAt_cons_eq_some_iff]
    simp only [hindex, ih]

/-- Leaves without entries do not matter: of two stores with the same index nodes, of which the
first has those leaves in addition, the same entries are delivered. -/
theorem LeavesInOrder.congr {rs : List β} (h : LeavesInOrder fetch children a rs)
    (hindex : ∀ x es, fetch x = .ok (.index es) ↔ fetch' x = .ok (.index es))
    (hleaf : ∀ x es, fetch x = .ok (.leaf es) → fetch' x = .ok (.leaf es) ∨ es = [])
    (hleaf' : ∀ x es, fetch' x = .ok (.leaf es) → fetch x = .ok (.leaf es)) :
    LeavesInOrder fetch' children a rs := by
  classical
  obtain ⟨leaves, hsorted, hmem, rfl⟩ := h
  -- the leaves of the second store are those of the first that it has too
  let stays : List ℕ × List β → Prop := fun l =>
    ∃ x, nodeAt fetch' children l.1 a = some x ∧ fetch' x = .ok (.leaf l.2)
  have hempty : ∀ l ∈ leaves, ¬stays l → l.2 = [] := by
    rintro ⟨p, es⟩ hl hgone
    obtain ⟨x, hx, hes⟩ := (hmem p es).mp hl
    rcases hleaf x es hes with hes' | hes'
    · exact absurd ⟨x, nodeAt_congr hindex p ▸ hx, hes'⟩ hgone
    · exact hes'
  refine ⟨leaves.filter stays, hsorted.filter _, fun p es => ?_, ?_⟩
  · rw [List.mem_filter, decide_eq_true_eq]
    refine ⟨fun hl => hl.2, fun hstays => ⟨?_, hstays⟩⟩
    obtain ⟨x, hx, hes⟩ := hstays
    exact (hmem p es).mpr ⟨x, (nodeAt_congr hindex p).trans hx, hleaf' x es hes⟩
  · clear hsorted hmem
    induction leaves with
    | nil => rfl
    | cons l leaves ih =>
      rw [List.forall_mem_cons] at hempty
      rw [List.flatMap_cons, ih hempty.2, List.filter_cons]
      split_ifs with hl
      · rw [List.flatMap_cons]
      · rw [hempty.1 fun hstays => hl (decide_eq_true hstays), List.nil_append]

end TwoStores

end ApfsCore
