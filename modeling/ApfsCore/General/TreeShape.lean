import ApfsCore.General.FloorSearch
import Mathlib.Data.List.Pairwise
import Mathlib.Order.Basic

/-!
# Trees that were written to a store

A tree (`Shape`) whose nodes are stored by address is walked as it was built. If every node of the
tree is what is fetched from its address, and the separators of every index node lead to its
subtrees, then the store unfolds to the tree: to its addresses and to the entries of its leaves,
both in order (`Shape.explore_eq`). A property that holds of all the nodes of the tree holds of
every node that is met (`Shape.forallNode`).

The separators of a search tree carry the first key below each child (`Shape.Separated`). When
the entries of the leaves are sorted, such separators bound what lies below each child from both
sides (`Shape.Separated.bounds`).
-/

namespace ApfsCore

universe u v

/-- A tree with the addresses its nodes are stored under. -/
inductive Shape (α β : Type u) where
  | leaf (address : α) (entries : List β)
  | index (address : α) (separators : List β) (subtrees : List (Shape α β))

variable {α β : Type u} {ε : Type v}

namespace Shape

/-- The address of the root. -/
def address : Shape α β → α
  | leaf a _ => a
  | index a _ _ => a

/-- The root as a stored node. -/
def node : Shape α β → Node β
  | leaf _ es => .leaf es
  | index _ seps _ => .index seps

/-- The subtrees of the root. -/
def subtrees : Shape α β → List (Shape α β)
  | leaf _ _ => []
  | index _ _ ts => ts

mutual

/-- The addresses of all nodes, in the order of a walk. -/
def addresses : Shape α β → List α
  | leaf a _ => [a]
  | index a _ ts => a :: addressesAll ts

/-- The addresses of all nodes of several trees. -/
def addressesAll : List (Shape α β) → List α
  | [] => []
  | t :: ts => addresses t ++ addressesAll ts

end

mutual

/-- The entries of all leaves, from left to right. -/
def entries : Shape α β → List β
  | leaf _ es => es
  | index _ _ ts => entriesAll ts

/-- The entries of all leaves of several trees. -/
def entriesAll : List (Shape α β) → List β
  | [] => []
  | t :: ts => entries t ++ entriesAll ts

end

mutual

/-- The number of levels. -/
def height : Shape α β → ℕ
  | leaf _ _ => 1
  | index _ _ ts => heightAll ts + 1

/-- The number of levels of the highest of several trees. -/
def heightAll : List (Shape α β) → ℕ
  | [] => 0
  | t :: ts => max (height t) (heightAll ts)

end

/-- The first tree is the second one, or lies below its root. -/
inductive IsSubtree : Shape α β → Shape α β → Prop
  | refl (t : Shape α β) : IsSubtree t t
  | under {s c : Shape α β} {a : α} {seps : List β} {ts : List (Shape α β)} :
      c ∈ ts → IsSubtree s c → IsSubtree s (index a seps ts)

theorem addressesAll_eq (ts : List (Shape α β)) : addressesAll ts = ts.flatMap addresses := by
  induction ts with
  | nil => rfl
  | cons t ts ih => rw [addressesAll, ih, List.flatMap_cons]

theorem entriesAll_eq (ts : List (Shape α β)) : entriesAll ts = ts.flatMap entries := by
  induction ts with
  | nil => rfl
  | cons t ts ih => rw [entriesAll, ih, List.flatMap_cons]

theorem height_le_heightAll {ts : List (Shape α β)} {t : Shape α β} (h : t ∈ ts) :
    t.height ≤ heightAll ts := by
  induction ts with
  | nil => cases h
  | cons t' ts ih =>
    rw [heightAll]
    rcases List.mem_cons.mp h with rfl | h
    · exact Nat.le_max_left _ _
    · exact Nat.le_trans (ih h) (Nat.le_max_right _ _)

theorem height_pos (t : Shape α β) : 0 < t.height := by
  cases t with
  | leaf a es => exact Nat.one_pos
  | index a seps ts => exact Nat.succ_pos _

theorem IsSubtree.trans {r s t : Shape α β} (h : IsSubtree r s) (h' : IsSubtree s t) :
    IsSubtree r t := by
  induction h' with
  | refl => exact h
  | under hc _ ih => exact .under hc ih

@[simp] theorem isSubtree_leaf {s : Shape α β} {a : α} {es : List β} :
    IsSubtree s (leaf a es) ↔ s = leaf a es := by
  refine ⟨fun h => ?_, fun h => h ▸ .refl _⟩
  cases h
  rfl

@[simp] theorem isSubtree_index {s : Shape α β} {a : α} {seps : List β} {ts : List (Shape α β)} :
    IsSubtree s (index a seps ts) ↔ s = index a seps ts ∨ ∃ c ∈ ts, IsSubtree s c := by
  constructor
  · intro h
    cases h with
    | refl => exact .inl rfl
    | under hc hs => exact .inr ⟨_, hc, hs⟩
  · rintro (rfl | ⟨c, hc, hs⟩)
    · exact .refl _
    · exact .under hc hs

theorem isSubtree_of_mem {c t : Shape α β} (h : c ∈ t.subtrees) : IsSubtree c t := by
  cases t with
  | leaf a es => cases h
  | index a seps ts => exact .under h (.refl c)

/-- What lies in a subtree lies in the tree, in the same order. -/
theorem IsSubtree.entries_sublist {s t : Shape α β} (h : IsSubtree s t) :
    s.entries.Sublist t.entries := by
  induction h with
  | refl => exact List.Sublist.refl _
  | @under c a seps ts hc _ ih =>
    rw [entries, entriesAll_eq]
    exact ih.trans (List.sublist_flatten_of_mem (List.mem_map_of_mem hc))

/-! ### Walking a written tree -/

section Stored

variable {fetch : α → Except ε (Node β)} {children : List β → List α} {guard : ε}

/-- The separators of the root lead to its subtrees. -/
def Linked (children : List β → List α) (t : Shape α β) : Prop :=
  ∀ seps, t.node = .index seps → children seps = t.subtrees.map address

/-- **A written tree is walked as it was built.** -/
theorem explore_eq {t : Shape α β} (hfetch : ∀ s, IsSubtree s t → fetch s.address = .ok s.node)
    (hlink : ∀ s, IsSubtree s t → Linked children s) {n : ℕ} (hn : t.height ≤ n) :
    explore fetch children guard n t.address = .ok (t.addresses, t.entries) := by
  induction n generalizing t with
  | zero => exact absurd (height_pos t) (Nat.not_lt.mpr hn)
  | succ n ih =>
    cases t with
    | leaf a es => exact explore_succ_eq_ok.mpr (.inl ⟨hfetch _ (.refl _), rfl⟩)
    | index a seps ts =>
      have hcs : children seps = ts.map address := hlink _ (.refl _) seps rfl
      refine explore_succ_eq_ok.mpr (.inr ⟨seps, ts.map fun t => (t.addresses, t.entries),
        hfetch _ (.refl _), ?_, ?_, ?_⟩)
      · -- each subtree is walked as it was built
        rw [hcs, List.forall₂_map_left_iff, List.forall₂_map_right_iff, List.forall₂_same]
        intro c hc
        refine ih (fun s hs => hfetch s (.under hc hs)) (fun s hs => hlink s (.under hc hs)) ?_
        exact Nat.le_trans (height_le_heightAll hc) (Nat.le_of_succ_le_succ hn)
      · rw [addresses, addressesAll_eq, List.flatMap_map]
        rfl
      · rw [entries, entriesAll_eq, List.flatMap_map]

/-- What lies below the address of a written tree. -/
theorem recordsBelow_eq {t : Shape α β} (hfetch : ∀ s, IsSubtree s t → fetch s.address = .ok s.node)
    (hlink : ∀ s, IsSubtree s t → Linked children s) {n : ℕ} (hn : t.height ≤ n) :
    recordsBelow fetch children guard n t.address = t.entries :=
  recordsBelow_of_explore (explore_eq hfetch hlink hn)

/-- A property of all nodes of a written tree is one of every node met. -/
theorem forallNode {P : ℕ → α → Node β → Prop} {t : Shape α β}
    (hfetch : ∀ s, IsSubtree s t → fetch s.address = .ok s.node)
    (hlink : ∀ s, IsSubtree s t → Linked children s)
    (hP : ∀ s, IsSubtree s t → ∀ n, s.height ≤ n + 1 → P n s.address s.node) {n : ℕ}
    (hn : t.height ≤ n) : ForallNode fetch children P n t.address := by
  induction n generalizing t with
  | zero => exact absurd (height_pos t) (Nat.not_lt.mpr hn)
  | succ n ih =>
    cases t with
    | leaf a es => exact .of_leaf (hfetch _ (.refl _)) (hP _ (.refl _) n hn)
    | index a seps ts =>
      refine .of_index (hfetch _ (.refl _)) (hP _ (.refl _) n hn) fun c hc => ?_
      have hcs : children seps = ts.map address := hlink _ (.refl _) seps rfl
      rw [hcs] at hc
      obtain ⟨t, ht, rfl⟩ := List.mem_map.mp hc
      exact ih (fun s hs => hfetch s (.under ht hs)) (fun s hs => hlink s (.under ht hs))
        (fun s hs => hP s (.under ht hs))
        (Nat.le_trans (height_le_heightAll ht) (Nat.le_of_succ_le_succ hn))

end Stored

/-! ### Search trees -/

section Search

variable {K : Type u} {key : β → K} {child : β → α}

/-- Each separator of the root leads to its subtree, and has the first key below it. -/
def Separated (key : β → K) (child : β → α) (t : Shape α β) : Prop :=
  ∀ seps, t.node = .index seps →
    List.Forall₂ (fun e c => child e = c.address ∧ c.entries.head?.map key = some (key e)) seps
      t.subtrees

/-- Separators lead to the subtrees. -/
theorem Separated.linked {t : Shape α β} (h : t.Separated key child) :
    t.Linked (List.map child) := by
  intro seps hseps
  have hpairs := h seps hseps
  clear hseps
  generalize t.subtrees = ts at hpairs ⊢
  induction hpairs with
  | nil => rfl
  | cons hpair _ ih => rw [List.map_cons, List.map_cons, hpair.1, ih]

/-- Each separator leads to the subtree in its place. -/
theorem Separated.exists_subtree {t : Shape α β} (h : t.Separated key child) {seps : List β}
    (hseps : t.node = .index seps) {i : ℕ} {e : β} (he : seps[i]? = some e) :
    ∃ c, t.subtrees[i]? = some c ∧ child e = c.address := by
  have hchild := congrArg (·[i]?) (h.linked seps hseps)
  simp only [List.getElem?_map, he, Option.map_some] at hchild
  obtain ⟨c, hc, haddress⟩ := Option.map_eq_some_iff.mp hchild.symm
  exact ⟨c, hc, haddress.symm⟩

/-- **Separators bound what lies below each child.** -/
theorem Separated.bounds [Preorder K] {t : Shape α β} (h : t.Separated key child)
    (hsorted : t.entries.Pairwise fun r r' => key r ≤ key r') {seps : List β}
    (hseps : t.node = .index seps) {i : ℕ} {e : β} {c : Shape α β} (he : seps[i]? = some e)
    (hc : t.subtrees[i]? = some c) {r : β} (hr : r ∈ c.entries) :
    key e ≤ key r ∧ ∀ e', seps[i + 1]? = some e' → key r ≤ key e' := by
  have hpairs := h seps hseps
  cases t with
  | leaf a es => cases hseps
  | index a seps' ts =>
    cases hseps
    rw [entries, entriesAll_eq] at hsorted
    rw [subtrees] at hc hpairs
    clear h
    induction hpairs generalizing i with
    | nil => cases he
    | @cons e₀ c₀ seps ts hpair hrest ih =>
      rw [List.flatMap_cons, List.pairwise_append] at hsorted
      obtain ⟨hfirst, hlater, hacross⟩ := hsorted
      cases i with
      | succ i => exact ih (by simpa using he) hlater (by simpa using hc)
      | zero =>
        simp only [List.getElem?_cons_zero, Option.some.injEq] at he hc
        subst he hc
        constructor
        · -- the first entry of the subtree has the separator's key
          cases hentries : c₀.entries with
          | nil => rw [hentries] at hr; cases hr
          | cons r₀ rs =>
            rw [hentries] at hr hfirst hpair
            have hkey : key r₀ = key e₀ := by simpa using hpair.2
            rw [← hkey]
            rcases List.mem_cons.mp hr with rfl | hr
            · exact le_rfl
            · exact (List.pairwise_cons.mp hfirst).1 r hr
        · intro e' he'
          cases hrest with
          | nil => simp at he'
          | @cons e₁ c₁ seps ts hpair' _ =>
            obtain rfl : e₁ = e' := by simpa using he'
            obtain ⟨r₁, hr₁, hkey⟩ := Option.map_eq_some_iff.mp hpair'.2
            rw [← hkey]
            refine hacross r hr r₁ ?_
            rw [List.flatMap_cons]
            exact List.mem_append_left _ (List.mem_of_head? hr₁)

/-- The key of a separator is found below it. -/
private theorem exists_key_eq {seps : List β} {ts : List (Shape α β)}
    (h : List.Forall₂ (fun e c => child e = c.address ∧ c.entries.head?.map key = some (key e))
      seps ts) {e : β} (he : e ∈ seps) : ∃ r ∈ ts.flatMap entries, key r = key e := by
  induction h with
  | nil => cases he
  | @cons e' c seps ts hpair _ ih =>
    rw [List.flatMap_cons]
    rcases List.mem_cons.mp he with rfl | he
    · obtain ⟨r, hr, hkey⟩ := Option.map_eq_some_iff.mp hpair.2
      exact ⟨r, List.mem_append_left _ (List.mem_of_head? hr), hkey⟩
    · obtain ⟨r, hr, hkey⟩ := ih he
      exact ⟨r, List.mem_append_right _ hr, hkey⟩

/-- The first keys of the subtrees are their least keys, and increase. -/
theorem Separated.searchIndex [LinearOrder K] {t : Shape α β} (h : t.Separated key child)
    (hsorted : t.entries.Pairwise fun r r' => key r < key r') {seps : List β}
    (hseps : t.node = .index seps) {below : α → List β}
    (hbelow : ∀ c ∈ t.subtrees, below c.address = c.entries) :
    SearchIndex key child below seps := by
  have hpairs := h seps hseps
  cases t with
  | leaf a es => cases hseps
  | index a seps' ts =>
    cases hseps
    rw [entries, entriesAll_eq] at hsorted
    rw [subtrees] at hbelow hpairs
    clear h
    induction hpairs with
    | nil => exact ⟨.nil, by simp, .nil⟩
    | @cons e c seps ts hpair hrest ih =>
      obtain ⟨hc, hts⟩ := List.forall_mem_cons.mp hbelow
      rw [List.flatMap_cons, List.pairwise_append] at hsorted
      obtain ⟨hfirst, hlater, hacross⟩ := hsorted
      have hrestIndex := ih hlater hts
      obtain ⟨r₀, hr₀, hkey⟩ := Option.map_eq_some_iff.mp hpair.2
      -- what lies below a later separator starts with its key
      have hbefore : ∀ r ∈ c.entries, ∀ e' ∈ seps, key r < key e' := by
        intro r hr e' he'
        obtain ⟨r', hr', hkey'⟩ := exists_key_eq hrest he'
        rw [← hkey']
        exact hacross r hr r' hr'
      have hbelowEq : below (child e) = c.entries := by rw [hpair.1, hc]
      refine ⟨.cons (fun e' he' => ?_) hrestIndex.sorted, ?_, ?_⟩
      · rw [← hkey]
        exact hbefore r₀ (List.mem_of_head? hr₀) e' he'
      · refine List.forall_mem_cons.mpr ⟨?_, hrestIndex.least⟩
        rw [hbelowEq, isLeast_keys_iff]
        refine ⟨⟨r₀, List.mem_of_head? hr₀, hkey⟩, fun r hr => ?_⟩
        obtain ⟨rs, hrs⟩ := List.head?_eq_some_iff.mp hr₀
        rw [hrs] at hr hfirst
        rw [← hkey]
        rcases List.mem_cons.mp hr with rfl | hr
        · exact le_rfl
        · exact ((List.pairwise_cons.mp hfirst).1 r hr).le
      · cases seps with
        | nil => exact .singleton _
        | cons e' seps =>
          refine .cons_cons (fun r hr => ?_) hrestIndex.next
          rw [hbelowEq] at hr
          exact hbefore r hr e' List.mem_cons_self

/-- **A written tree whose separators are the first keys below them is a search tree.** -/
theorem searchTree [LinearOrder K] {fetch : α → Except ε (Node β)} {guard : ε} {t : Shape α β}
    (hfetch : ∀ s, IsSubtree s t → fetch s.address = .ok s.node)
    (hsep : ∀ s, IsSubtree s t → s.Separated key child)
    (hsorted : t.entries.Pairwise fun r r' => key r < key r') {n : ℕ} (hn : t.height ≤ n) :
    SearchTree fetch guard key child n t.address := by
  refine forallNode hfetch (fun s hs => (hsep s hs).linked) (fun s hs m hm => ?_) hn
  have hs' := hsorted.sublist hs.entries_sublist
  cases s with
  | leaf a es => exact hs'
  | index a seps ts =>
    refine (hsep _ hs).searchIndex hs' rfl fun c hc => ?_
    have hbelow : ∀ s, IsSubtree s c → IsSubtree s t := fun s hsc =>
      (IsSubtree.under hc hsc).trans hs
    refine recordsBelow_eq (fun s hsc => hfetch s (hbelow s hsc))
      (fun s hsc => (hsep s (hbelow s hsc)).linked) ?_
    exact Nat.le_trans (height_le_heightAll hc) (Nat.le_of_succ_le_succ hm)

end Search

end Shape

end ApfsCore
