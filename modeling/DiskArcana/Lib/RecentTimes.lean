import Mathlib.Data.List.Basic
import Mathlib.Data.List.MinMax

/-!
# Times within a window

A list of times, each no later than those behind it. `recent` are those less than a window before a
moment; times that were dropped at an earlier moment are not missed (`recent_recent`). When a time is
added only while there are fewer than `k` recent ones, no window holds more than `k` (`Bounded.snoc`).
-/

namespace DiskArcana.Lib.RecentTimes

variable {w k now now' cut t oldest : ℕ} {times : List ℕ}

/-- The times less than `w` before `now`. -/
def recent (w now : ℕ) (times : List ℕ) : List ℕ := times.filter fun t => now - t < w

/-- No half-open window of length `w` holds more than `k` times. -/
def Bounded (w k : ℕ) (times : List ℕ) : Prop :=
  ∀ start, (times.filter fun t => start ≤ t ∧ t < start + w).length ≤ k

theorem recent_recent (h : cut ≤ now) : recent w now (recent w cut times) = recent w now times := by
  unfold recent
  rw [List.filter_filter]
  apply List.filter_congr
  intro t _
  by_cases hrecent : now - t < w
  · simp only [hrecent, decide_true, Bool.true_and, decide_eq_true_eq]
    omega
  · simp [hrecent]

theorem mem_recent : t ∈ recent w now times ↔ t ∈ times ∧ now - t < w := by
  rw [recent, List.mem_filter, decide_eq_true_eq]

theorem length_filter_le_of_imp {p q : ℕ → Bool} (h : ∀ t ∈ times, p t = true → q t = true) :
    (times.filter p).length ≤ (times.filter q).length := by
  rw [← List.countP_eq_length_filter, ← List.countP_eq_length_filter]
  exact List.countP_mono_left h

/-- The recent times are those of one window. -/
theorem Bounded.length_recent_le (h : Bounded w k times) (hlast : ∀ t ∈ times, t ≤ now) :
    (recent w now times).length ≤ k := by
  refine le_trans (length_filter_le_of_imp fun t ht hrecent => ?_) (h (now + 1 - w))
  have hle := hlast t ht
  simp only [decide_eq_true_eq] at hrecent ⊢
  omega

theorem bounded_nil : Bounded w k [] := fun _ => Nat.zero_le k

theorem Bounded.snoc (h : Bounded w k times)
    (hroom : (recent w now times).length < k) : Bounded w k (times ++ [now]) := by
  intro start
  rw [List.filter_append, List.length_append]
  by_cases hin : start ≤ now ∧ now < start + w
  · -- the other times of the window are recent when the last one is added
    have hrecent : (times.filter fun t => start ≤ t ∧ t < start + w).length ≤
        (recent w now times).length := by
      apply length_filter_le_of_imp
      intro t ht hmem
      simp only [decide_eq_true_eq] at hmem ⊢
      omega
    have hone : ([now].filter fun t => start ≤ t ∧ t < start + w).length ≤ 1 := List.length_filter_le _ _
    omega
  · rw [List.filter_cons_of_neg (by simpa using hin), List.filter_nil, List.length_nil, Nat.add_zero]
    exact h start

/-- Times stay recent until the oldest of them is a window old. -/
theorem length_recent_eq_iff (hw : 0 < w) (hmin : times.min? = some oldest) :
    (recent w now times).length = times.length ↔ now < oldest + w := by
  obtain ⟨hmem, hle⟩ := List.min?_eq_some_iff.mp hmin
  unfold recent
  rw [List.length_filter_eq_length_iff]
  constructor
  · intro h
    have holdest := h oldest hmem
    rw [decide_eq_true_eq] at holdest
    omega
  · intro h t ht
    have hot := hle t ht
    rw [decide_eq_true_eq]
    omega

end DiskArcana.Lib.RecentTimes
