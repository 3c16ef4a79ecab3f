import Mathlib.Data.Nat.Init
import Mathlib.Tactic.ByContra

/-!
# Endless runs

A system with a total step function and an endless sequence of events. A moment is the number of events
before it.

* `invariant`: what holds at first and every step keeps holds at every moment, and from any moment on
  (`invariant_from`);
* `exists_of_decrease`: what waits behind a number that never grows, and shrinks again and again, comes
  about.
-/

namespace DiskArcana.Lib

namespace EndlessRun

variable {σ ε : Type} (step : σ → ε → σ) (s : σ) (es : ℕ → ε)

/-- The state at a moment. -/
def state : ℕ → σ
  | 0 => s
  | n + 1 => step (state n) (es n)

variable {step s es}

/-- What every step keeps holds from a moment on. -/
theorem invariant_from {I : σ → Prop} {m : ℕ} (hm : I (state step s es m))
    (hkeep : ∀ n, m ≤ n → I (state step s es n) → I (step (state step s es n) (es n))) {n : ℕ}
    (hn : m ≤ n) : I (state step s es n) := by
  induction n, hn using Nat.le_induction with
  | base => exact hm
  | succ n hn ih => exact hkeep n hn ih

/-- What holds at first and every step keeps holds at every moment. -/
theorem invariant {I : σ → Prop} (h₀ : I s) (hkeep : ∀ s e, I s → I (step s e)) (n : ℕ) :
    I (state step s es n) :=
  invariant_from (m := 0) h₀ (fun _ _ h => hkeep _ _ h) (Nat.zero_le n)

/-- Again and again. -/
def Recurs (P : ℕ → Prop) : Prop := ∀ m, ∃ n, m ≤ n ∧ P n

/-- What waits behind a number that never grows, and that shrinks again and again, comes about. -/
theorem exists_of_decrease (done waiting : ℕ → Prop) (measure : ℕ → ℕ) {m : ℕ}
    (hm : waiting m) (hwait : ∀ n, waiting n → ¬ done n → waiting (n + 1))
    (hkeep : ∀ n, waiting n → ¬ done n → measure (n + 1) ≤ measure n)
    (hshrink : Recurs fun n => waiting n → ¬ done n → measure (n + 1) < measure n) :
    ∃ n, m ≤ n ∧ done n := by
  generalize hk : measure m = k
  induction k using Nat.strong_induction_on generalizing m with
  | _ k ih =>
      by_contra hnever
      simp only [not_exists, not_and] at hnever
      -- until the number shrinks, it waits
      have hlater : ∀ n, m ≤ n → waiting n ∧ measure n ≤ k := by
        intro n hn
        induction n, hn using Nat.le_induction with
        | base => exact ⟨hm, Nat.le_of_eq hk⟩
        | succ n hn ih' =>
            exact ⟨hwait n ih'.1 (hnever n hn),
              Nat.le_trans (hkeep n ih'.1 (hnever n hn)) ih'.2⟩
      obtain ⟨n, hn, hless⟩ := hshrink m
      obtain ⟨hwaiting, hmeasure⟩ := hlater n hn
      have hlt := hless hwaiting (hnever n hn)
      obtain ⟨n', hn', hdone⟩ := ih (measure (n + 1)) (by omega)
        (hwait n hwaiting (hnever n hn)) rfl
      exact hnever n' (by omega) hdone

end EndlessRun

end DiskArcana.Lib
