import Mathlib.Algebra.BigOperators.Group.List.Basic
import Mathlib.Tactic.Abel

/-!
# Sums over a sliding window

Beside its sum a window has a weighted sum, in which an element counts as often as there are
elements from it to the end. When the window moves on by one element, the weighted sum gains the new
sum and loses the first element as many times as the window is long (`weighted_slide`).
-/

namespace DiskArcana.Lib.SlidingSum

variable {α : Type} [AddCommMonoid α]

/-- Each element, as often as there are elements from it to the end. -/
def weighted : List α → α
  | [] => 0
  | a :: l => (l.length + 1) • a + weighted l

@[simp] theorem weighted_nil : weighted ([] : List α) = 0 := rfl

theorem weighted_cons (a : α) (l : List α) : weighted (a :: l) = (l.length + 1) • a + weighted l := rfl

/-- A new element is in the sum once for each element of the longer list. -/
theorem weighted_concat (l : List α) (b : α) : weighted (l ++ [b]) = weighted l + (l ++ [b]).sum := by
  induction l with
  | nil =>
      rw [List.nil_append, weighted_cons, weighted_nil, List.length_nil, zero_add, one_nsmul,
        List.sum_singleton, add_comm]
  | cons a l ih =>
      have hsum : (a :: l ++ [b]).sum = a + (l ++ [b]).sum := by simp
      rw [List.cons_append, weighted_cons, weighted_cons, ih, ← List.cons_append, hsum,
        List.length_append, List.length_singleton, add_nsmul (a := a), one_nsmul]
      abel

/-- **The window moves on.** -/
theorem weighted_slide (a : α) (l : List α) (b : α) :
    weighted (l ++ [b]) + (l.length + 1) • a = weighted (a :: l) + (l ++ [b]).sum := by
  rw [weighted_concat, weighted_cons]
  abel

end DiskArcana.Lib.SlidingSum
