import ApfsCore.General.Bytes
import Mathlib.Order.CompletePartialOrder
import Mathlib.Order.Interval.Set.Disjoint

/-!
# Assembling a buffer from pieces

`overwrite out start data` copies `data` over a buffer from position `start` on. A reader
that assembles a value from pieces starts from a buffer of the right length and overwrites
it piece by piece. `Assembles` is the invariant of that loop, relative to the value
assembled: the buffer keeps its length, every position that some piece has reached holds the
value's element, and every other position still holds the filler. It is stated position by
position, so the number, the order and the overlap of the pieces do not matter.

A writer that lays pieces out at places of its choice uses the same operation (`writeAll`). As
long as no two pieces overlap, each of them is read back from its place (`slice_writeAll`).
-/

namespace ApfsCore

universe u

variable {α : Type u}

/-- Copy `data` over `out`, from position `start` on. -/
def overwrite (out : List α) (start : ℕ) (data : List α) : List α :=
  out.take start ++ data ++ out.drop (start + data.length)

theorem length_overwrite {out data : List α} {start : ℕ} (h : start + data.length ≤ out.length) :
    (overwrite out start data).length = out.length := by
  simp only [overwrite, List.length_append, List.length_take, List.length_drop]
  omega

/-- Inside the piece the buffer holds the piece, elsewhere what it held. -/
theorem getElem?_overwrite {out data : List α} {start : ℕ} (h : start + data.length ≤ out.length)
    (i : ℕ) :
    (overwrite out start data)[i]? =
      if start ≤ i ∧ i < start + data.length then data[i - start]? else out[i]? := by
  have htake : (out.take start).length = start := by
    rw [List.length_take]
    omega
  rw [overwrite]
  split_ifs with hi
  · rw [List.append_assoc, List.getElem?_append_right (by omega), htake,
      List.getElem?_append_left (by omega)]
  · rcases Nat.lt_or_ge i start with hlt | hge
    · rw [List.append_assoc, List.getElem?_append_left (by omega), List.getElem?_take_of_lt hlt]
    · rw [List.getElem?_append_right (by rw [List.length_append]; omega), List.getElem?_drop,
        List.length_append, htake]
      congr 1
      omega

/-- The buffer `out` has been assembled towards `v`, at the positions satisfying `reached`,
from a buffer of fillers `z`. -/
structure Assembles (z : α) (v : List α) (reached : ℕ → Prop) (out : List α) : Prop where
  length_eq : out.length = v.length
  reached_eq : ∀ i < v.length, reached i → out[i]? = v[i]?
  else_eq : ∀ i < v.length, ¬reached i → out[i]? = some z

theorem Assembles.start (z : α) (v : List α) :
    Assembles z v (fun _ => False) (List.replicate v.length z) where
  length_eq := List.length_replicate
  reached_eq := fun _ _ h => h.elim
  else_eq := fun i hi _ => by rw [List.getElem?_replicate, if_pos hi]

/-- Only the positions of `v` matter. -/
theorem Assembles.congr {z : α} {v out : List α} {reached reached' : ℕ → Prop}
    (h : Assembles z v reached out) (hiff : ∀ i < v.length, reached' i ↔ reached i) :
    Assembles z v reached' out where
  length_eq := h.length_eq
  reached_eq := fun i hi hr => h.reached_eq i hi ((hiff i hi).mp hr)
  else_eq := fun i hi hr => h.else_eq i hi fun hr' => hr ((hiff i hi).mpr hr')

/-- Copying a piece of `v` to its place reaches its positions. -/
theorem Assembles.overwrite {z : α} {v out data : List α} {reached : ℕ → Prop} {start : ℕ}
    (h : Assembles z v reached out) (hfit : start + data.length ≤ v.length)
    (hdata : ∀ k < data.length, data[k]? = v[start + k]?) :
    Assembles z v (fun i => reached i ∨ (start ≤ i ∧ i < start + data.length))
      (overwrite out start data) := by
  have hfit' : start + data.length ≤ out.length := by
    have := h.length_eq
    omega
  refine ⟨(length_overwrite hfit').trans h.length_eq, ?_, ?_⟩
  · intro i hi hr
    rw [getElem?_overwrite hfit']
    split_ifs with hin
    · -- inside the piece the position counts from its start
      have hk := hdata (i - start) (by omega)
      rwa [Nat.add_sub_cancel' hin.1] at hk
    · exact h.reached_eq i hi (hr.resolve_right hin)
  · intro i hi hr
    rw [not_or] at hr
    rw [getElem?_overwrite hfit', if_neg hr.2]
    exact h.else_eq i hi hr.1

/-- A buffer is the value once every position is reached or is a filler of the value. -/
theorem Assembles.eq_of_covered {z : α} {v out : List α} {reached : ℕ → Prop}
    (h : Assembles z v reached out) (hcov : ∀ i < v.length, reached i ∨ v[i]? = some z) :
    out = v := by
  refine List.ext_getElem? fun i => ?_
  rcases Nat.lt_or_ge i v.length with hi | hi
  · by_cases hr : reached i
    · exact h.reached_eq i hi hr
    · rw [h.else_eq i hi hr, (hcov i hi).resolve_left hr]
  · rw [List.getElem?_eq_none hi, List.getElem?_eq_none (h.length_eq.symm ▸ hi)]

/-! ### Pieces side by side -/

theorem slice_overwrite {out data : List α} {start : ℕ} (h : start + data.length ≤ out.length) :
    slice (overwrite out start data) start (start + data.length) = some data := by
  have htake : (out.take start).length = start := by
    rw [List.length_take]
    omega
  have hmiddle := slice_middle (a := out.take start) (b := data)
    (c := out.drop (start + data.length))
  rwa [htake, ← List.append_assoc] at hmiddle

/-- Copying over a piece what is there already changes nothing. -/
theorem overwrite_eq_self {out data : List α} {start : ℕ}
    (h : slice out start (start + data.length) = some data) : overwrite out start data = out := by
  obtain ⟨-, -, htake⟩ := slice_eq_some_iff.mp h
  rw [Nat.add_sub_cancel_left] at htake
  have hdrop : data ++ out.drop (start + data.length) = out.drop start := by
    conv_lhs => rw [← List.drop_drop]
    nth_rewrite 1 [← htake]
    exact List.take_append_drop _ _
  rw [overwrite, List.append_assoc, hdrop, List.take_append_drop]

/-- A range that no byte of the piece lies in is left as it was. -/
theorem slice_overwrite_of_disjoint {out data : List α} {start i j : ℕ}
    (h : start + data.length ≤ out.length)
    (hapart : Disjoint (Set.Ico i j) (Set.Ico start (start + data.length))) :
    slice (overwrite out start data) i j = slice out i j := by
  refine slice_congr (length_overwrite h) fun k hi hj => ?_
  have hout : ¬(start ≤ k ∧ k < start + data.length) := Set.disjoint_left.mp hapart ⟨hi, hj⟩
  rw [getElem?_overwrite h, if_neg hout]

/-- Ranges one after the other. -/
theorem disjoint_Ico_of_le {i j k l : ℕ} (h : j ≤ k) :
    Disjoint (Set.Ico i j) (Set.Ico k l) :=
  Set.Ico_disjoint_Ico.mpr ((min_le_left j l).trans (h.trans (le_max_right i k)))

/-- The positions a piece takes up. -/
def pieceSpan (piece : ℕ × List α) : Set ℕ :=
  Set.Ico piece.1 (piece.1 + piece.2.length)

/-- Copy pieces over `out`, one after the other, each to the place it comes with. -/
def writeAll (out : List α) (pieces : List (ℕ × List α)) : List α :=
  pieces.foldl (fun out piece => overwrite out piece.1 piece.2) out

section WriteAll

variable {out : List α} {pieces : List (ℕ × List α)}

theorem writeAll_cons (piece : ℕ × List α) (pieces : List (ℕ × List α)) :
    writeAll out (piece :: pieces) = writeAll (overwrite out piece.1 piece.2) pieces :=
  rfl

theorem length_writeAll (hfit : ∀ p ∈ pieces, p.1 + p.2.length ≤ out.length) :
    (writeAll out pieces).length = out.length := by
  induction pieces generalizing out with
  | nil => rfl
  | cons p pieces ih =>
    obtain ⟨hp, hrest⟩ := List.forall_mem_cons.mp hfit
    have hlen := length_overwrite hp
    rw [writeAll_cons, ih (hlen.symm ▸ hrest), hlen]

/-- A range apart from every piece is left as it was. -/
theorem slice_writeAll_of_disjoint {i j : ℕ}
    (hfit : ∀ p ∈ pieces, p.1 + p.2.length ≤ out.length)
    (hapart : ∀ p ∈ pieces, Disjoint (Set.Ico i j) (pieceSpan p)) :
    slice (writeAll out pieces) i j = slice out i j := by
  induction pieces generalizing out with
  | nil => rfl
  | cons p pieces ih =>
    obtain ⟨hp, hrest⟩ := List.forall_mem_cons.mp hfit
    obtain ⟨hpapart, hrestapart⟩ := List.forall_mem_cons.mp hapart
    rw [writeAll_cons, ih ((length_overwrite hp).symm ▸ hrest) hrestapart,
      slice_overwrite_of_disjoint hp hpapart]

/-- **Pieces are read back.** Of pieces no two of which overlap, each is found in its place. -/
theorem slice_writeAll (hfit : ∀ p ∈ pieces, p.1 + p.2.length ≤ out.length)
    (hapart : pieces.Pairwise fun p q => Disjoint (pieceSpan p) (pieceSpan q))
    {p : ℕ × List α} (hp : p ∈ pieces) :
    slice (writeAll out pieces) p.1 (p.1 + p.2.length) = some p.2 := by
  induction pieces generalizing out with
  | nil => cases hp
  | cons q pieces ih =>
    obtain ⟨hq, hrest⟩ := List.forall_mem_cons.mp hfit
    obtain ⟨hqapart, hrestapart⟩ := List.pairwise_cons.mp hapart
    have hrest' := (length_overwrite hq).symm ▸ hrest
    rw [writeAll_cons]
    rcases List.mem_cons.mp hp with rfl | hp
    · -- the pieces written after it leave it alone
      rw [slice_writeAll_of_disjoint hrest' hqapart, slice_overwrite hq]
    · exact ih hrest' hrestapart hp

/-- Writing pieces that are in their places already changes nothing. -/
theorem writeAll_eq_self (h : ∀ p ∈ pieces, slice out p.1 (p.1 + p.2.length) = some p.2) :
    writeAll out pieces = out := by
  induction pieces with
  | nil => rfl
  | cons p pieces ih =>
    obtain ⟨hp, hrest⟩ := List.forall_mem_cons.mp h
    rw [writeAll_cons, overwrite_eq_self hp, ih hrest]

end WriteAll

end ApfsCore
