import Mathlib.Data.Vector.Basic

/-!
# Rows of fixed length

A program that maps the elements of a row with a function that can fail stops at the first failure.
-/

namespace DiskArcana.Lib.Vectors

variable {ε α β : Type} {n : ℕ} {f : α → Except ε β} {v : List.Vector α n}

/-- A row is mapped when each of its elements is. -/
theorem mmap_eq_ok {w : List.Vector β n} :
    v.mmap f = .ok w ↔ ∀ i, f (v.get i) = .ok (w.get i) := by
  induction n with
  | zero =>
      constructor
      · intro _ i
        exact i.elim0
      · intro _
        rw [v.eq_nil, w.eq_nil]
        rfl
  | succ n ih =>
      unfold List.Vector.mmap
      constructor
      · intro h
        rcases hhead : f v.head with e | x
        · rw [hhead] at h
          cases h
        rcases htail : v.tail.mmap f with e | t
        · rw [hhead, htail] at h
          cases h
        rw [hhead, htail] at h
        cases h
        refine Fin.cases ?_ fun i => ?_
        · rw [List.Vector.get_zero, hhead]
          rfl
        · rw [List.Vector.get_cons_succ, ← ih.mp htail i, List.Vector.get_tail_succ]
      · intro h
        have hhead : f v.head = .ok w.head := by
          rw [← List.Vector.get_zero, h 0, List.Vector.get_zero]
        have htail : v.tail.mmap f = .ok w.tail := by
          rw [ih]
          intro i
          rw [List.Vector.get_tail_succ, h, List.Vector.get_tail_succ]
        rw [hhead, htail, ← List.Vector.cons_head_tail w]
        rfl

/-- A row fails with the error of its first element that fails. -/
theorem mmap_eq_error {e : ε} :
    v.mmap f = .error e ↔ ∃ i, f (v.get i) = .error e ∧ ∀ j < i, ∃ x, f (v.get j) = .ok x := by
  induction n with
  | zero =>
      constructor
      · intro h
        rw [v.eq_nil] at h
        cases h
      · rintro ⟨i, _⟩
        exact i.elim0
  | succ n ih =>
      unfold List.Vector.mmap
      constructor
      · intro h
        rcases hhead : f v.head with e' | x
        · rw [hhead] at h
          cases h
          exact ⟨0, by rw [List.Vector.get_zero, hhead], fun j hj => absurd hj (Fin.not_lt_zero j)⟩
        rcases htail : v.tail.mmap f with e' | t
        · rw [hhead, htail] at h
          cases h
          obtain ⟨i, hi, hbefore⟩ := ih.mp htail
          refine ⟨i.succ, by rw [← List.Vector.get_tail_succ, hi], ?_⟩
          refine Fin.cases (fun _ => ⟨x, by rw [List.Vector.get_zero, hhead]⟩) fun j hj => ?_
          obtain ⟨y, hy⟩ := hbefore j (Fin.succ_lt_succ_iff.mp hj)
          exact ⟨y, by rw [← List.Vector.get_tail_succ, hy]⟩
        · rw [hhead, htail] at h
          cases h
      · rintro ⟨i, hi, hbefore⟩
        cases i using Fin.cases with
        | zero =>
            rw [List.Vector.get_zero] at hi
            rw [hi]
            rfl
        | succ i =>
            obtain ⟨x, hx⟩ := hbefore 0 i.succ_pos
            rw [List.Vector.get_zero] at hx
            have htail : v.tail.mmap f = .error e := by
              refine ih.mpr ⟨i, by rw [List.Vector.get_tail_succ, hi], fun j hj => ?_⟩
              obtain ⟨y, hy⟩ := hbefore j.succ (Fin.succ_lt_succ_iff.mpr hj)
              exact ⟨y, by rw [List.Vector.get_tail_succ, hy]⟩
            rw [hx, htail]
            rfl

end DiskArcana.Lib.Vectors
