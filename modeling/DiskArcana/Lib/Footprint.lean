import Mathlib.Data.Set.BooleanAlgebra
import Mathlib.Data.Set.Disjoint
import Mathlib.Order.CompletePartialOrder

/-!
# Folds of local steps

A step is local to a footprint when it leaves every cell outside the footprint alone and computes
the cells inside from the cells inside. The state is any type that is read cell by cell: a
function, a table through its lookup, a list through its positions.

In a fold of steps with pairwise disjoint footprints no step sees what another one wrote, so each
cell holds what its own step makes of the state before the fold (`Local.get_foldl_of_mem`), and a
cell of no footprint is left alone (`Local.get_foldl_of_forall_notMem`).
-/

namespace DiskArcana.Lib

variable {α κ ν σ : Type}

/-- `step` with `a` reads and writes only the cells `touches a`. -/
structure Local (get : σ → κ → ν) (step : σ → α → σ) (touches : α → Set κ) : Prop where
  frame : ∀ s a k, k ∉ touches a → get (step s a) k = get s k
  congr : ∀ s s' a, (∀ k ∈ touches a, get s k = get s' k) →
    ∀ k ∈ touches a, get (step s a) k = get (step s' a) k

namespace Local

variable {get : σ → κ → ν} {step : σ → α → σ} {touches : α → Set κ} {l : List α}

/-- A cell that no step touches keeps its value. -/
theorem get_foldl_of_forall_notMem (h : Local get step touches) (s : σ) {k : κ}
    (hk : ∀ a ∈ l, k ∉ touches a) : get (l.foldl step s) k = get s k := by
  induction l generalizing s with
  | nil => rfl
  | cons a l ih =>
      rw [List.foldl_cons, ih _ fun b hb => hk b (List.mem_cons_of_mem _ hb)]
      exact h.frame s a k (hk a List.mem_cons_self)

/-- **Disjoint steps do not see each other.** A cell that `a` touches holds after the fold what `a`
alone makes of the state before it. -/
theorem get_foldl_of_mem (h : Local get step touches)
    (hl : l.Pairwise fun a b => Disjoint (touches a) (touches b)) (s : σ) {a : α} (ha : a ∈ l)
    {k : κ} (hk : k ∈ touches a) : get (l.foldl step s) k = get (step s a) k := by
  induction l generalizing s with
  | nil => exact absurd ha List.not_mem_nil
  | cons b l ih =>
      obtain ⟨hb, hl⟩ := List.pairwise_cons.mp hl
      rw [List.foldl_cons]
      rcases List.mem_cons.mp ha with rfl | ha
      · apply h.get_foldl_of_forall_notMem
        intro c hc
        exact Set.disjoint_left.mp (hb c hc) hk
      · rw [ih hl _ ha]
        -- the first step leaves the whole footprint of the later one alone
        apply h.congr _ _ _ _ k hk
        intro k' hk'
        exact h.frame s b k' (Set.disjoint_right.mp (hb a ha) hk')

end Local

end DiskArcana.Lib
