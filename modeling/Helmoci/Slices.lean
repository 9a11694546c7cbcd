import Mathlib

/-!
# Slices of a buffer

Cutting a list between two positions is a partial operation: out of range it stops the
program. A scanner that cuts by position is safe if none of its slices is missing.
-/
namespace Helmoci.Slices
variable {A : Type} {l : List A} {start stop : ℕ}

/-- The elements from one position to another, none where they are out of range. -/
def slice (l : List A) (start stop : ℕ) : Option (List A) :=
  if start ≤ stop ∧ stop ≤ l.length then some ((l.drop start).take (stop - start)) else none

theorem slice_eq (h : start ≤ stop) (hstop : stop ≤ l.length) :
    slice l start stop = some ((l.drop start).take (stop - start)) := by
  rw [slice, if_pos ⟨h, hstop⟩]

theorem slice_add {n : ℕ} (h : start + n ≤ l.length) :
    slice l start (start + n) = some ((l.drop start).take n) := by
  rw [slice_eq (Nat.le_add_right _ _) h, Nat.add_sub_cancel_left]

theorem slice_zero (h : stop ≤ l.length) : slice l 0 stop = some (l.take stop) := by
  rw [slice_eq (Nat.zero_le _) h, List.drop_zero, Nat.sub_zero]

theorem slice_length (h : start ≤ l.length) : slice l start l.length = some (l.drop start) := by
  rw [slice_eq h (Nat.le_refl _), List.take_of_length_le]
  rw [List.length_drop]

/-- A slice of the front is a slice of the whole. -/
theorem slice_eq_take_drop (h : start ≤ stop) (hstop : stop ≤ l.length) :
    slice l start stop = some ((l.take stop).drop start) := by
  rw [slice_eq h hstop, List.drop_take]

end Helmoci.Slices
