import ApfsCore.General.Outcome
import Mathlib.Algebra.GroupWithZero.Nat
import Mathlib.Data.List.TakeDrop

/-!
# A value read window by window

A reader that is asked for a value piece by piece is given a position and a length, and answers
with the window of the value there (`windowAt`), which is shorter than asked only at the end of
the value. Windows that follow each other join up (`windowAt_append`), so a client that reads on
from where the last window ended gets the value, whatever lengths it asks for
(`readWindows_eq`).
-/

namespace ApfsCore

universe u v

variable {α : Type u} {ε : Type v}

/-- At most `len` elements of `data`, from position `off` on. -/
def windowAt (data : List α) (off len : ℕ) : List α :=
  (data.drop off).take len

theorem length_windowAt (data : List α) (off len : ℕ) :
    (windowAt data off len).length = min len (data.length - off) := by
  rw [windowAt, List.length_take, List.length_drop]

/-- Past the end there is nothing left. -/
theorem windowAt_of_length_le {data : List α} {off : ℕ} (h : data.length ≤ off) (len : ℕ) :
    windowAt data off len = [] := by
  rw [windowAt, List.drop_eq_nil_of_le h, List.take_nil]

/-- The window that starts where another one ended continues it. -/
theorem windowAt_append (data : List α) (off m n : ℕ) :
    windowAt data off m ++ windowAt data (off + (windowAt data off m).length) n =
      windowAt data off (m + n) := by
  rw [length_windowAt]
  rcases Nat.le_total m (data.length - off) with hle | hle
  · rw [Nat.min_eq_left hle, windowAt, windowAt, windowAt, ← List.drop_drop, List.take_add]
  · -- the first window is cut short by the end
    have hend : data.length ≤ off + (data.length - off) := by omega
    rw [Nat.min_eq_right hle, windowAt_of_length_le hend, List.append_nil, windowAt, windowAt,
      List.take_of_length_le (by rw [List.length_drop]; exact hle),
      List.take_of_length_le (by rw [List.length_drop]; omega)]

/-- Read windows of the given lengths, each from where the last one ended. -/
def readWindows (read : ℕ → ℕ → Except ε (List α)) : ℕ → List ℕ → Except ε (List α)
  | _, [] => .ok []
  | off, len :: lens => do
    let piece ← read off len
    let rest ← readWindows read (off + piece.length) lens
    .ok (piece ++ rest)

/-- **Windows reassemble the value**, whatever their lengths. -/
theorem readWindows_eq {read : ℕ → ℕ → Except ε (List α)} {data : List α}
    (hread : ∀ off len, read off len = .ok (windowAt data off len)) (off : ℕ) (lens : List ℕ) :
    readWindows read off lens = .ok (windowAt data off lens.sum) := by
  induction lens generalizing off with
  | nil => rw [readWindows, List.sum_nil, windowAt, List.take_zero]
  | cons len lens ih =>
    rw [readWindows, hread, ok_bind, ih, ok_bind, windowAt_append, List.sum_cons]

end ApfsCore
