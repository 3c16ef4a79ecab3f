import Mathlib.Data.List.Sort

/-!
# The first entries of a sorted listing

A page is the first `n` entries of a listing, sorted by key, that pass a test. If a second test passes
all that the first one passes, and more, then the page stays the same as long as `n` entries of the
first test come before each further one (`take_filter_sorted_iff`).
-/

namespace DiskArcana.Lib.SortedPage

variable {α κ : Type} {p q : α → Bool} {l : List α} {n : ℕ}

/-- Every entry that passes `p` and not `q` has `n` entries that pass `q` before it. -/
theorem take_filter_eq_iff (himp : ∀ a ∈ l, q a = true → p a = true) :
    (l.filter p).take n = (l.filter q).take n ↔
      ∀ l₁ a l₂, l = l₁ ++ a :: l₂ → p a = true → q a = false → n ≤ l₁.countP q := by
  induction l generalizing n with
  | nil => simp
  | cons first l ih =>
      have himp' : ∀ a ∈ l, q a = true → p a = true := fun a ha => himp a (List.mem_cons_of_mem _ ha)
      rcases n with _ | n
      · simp
      rcases hq : q first with _ | _
      · rcases hp : p first with _ | _
        · -- the first entry is on neither page
          rw [List.filter_cons_of_neg (by simp [hp]), List.filter_cons_of_neg (by simp [hq]), ih himp']
          constructor
          · rintro h (_ | ⟨b, l₁⟩) a l₂ hl hpa hqa
            · obtain ⟨rfl, rfl⟩ := List.cons.inj hl
              rw [hp] at hpa
              cases hpa
            · obtain ⟨rfl, rfl⟩ := List.cons.inj hl
              rw [List.countP_cons_of_neg (by simp [hq])]
              exact h l₁ a l₂ rfl hpa hqa
          · rintro h l₁ a l₂ rfl hpa hqa
            have hcount := h (first :: l₁) a l₂ rfl hpa hqa
            rwa [List.countP_cons_of_neg (by simp [hq])] at hcount
        · -- the first entry is on one page only
          rw [List.filter_cons_of_pos hp, List.filter_cons_of_neg (by simp [hq])]
          constructor
          · intro h
            rw [List.take_succ_cons] at h
            have hmem : first ∈ (l.filter q).take (n + 1) := h ▸ List.mem_cons_self
            have hfirst := (List.mem_filter.mp (List.mem_of_mem_take hmem)).2
            rw [hq] at hfirst
            cases hfirst
          · intro h
            have hcount := h [] first l rfl hp hq
            simp at hcount
      · -- the first entry is on both pages
        have hp := himp first List.mem_cons_self hq
        rw [List.filter_cons_of_pos hp, List.filter_cons_of_pos hq, List.take_succ_cons,
          List.take_succ_cons, List.cons_inj_right, ih himp']
        constructor
        · rintro h (_ | ⟨b, l₁⟩) a l₂ hl hpa hqa
          · obtain ⟨rfl, rfl⟩ := List.cons.inj hl
            rw [hq] at hqa
            cases hqa
          · obtain ⟨rfl, rfl⟩ := List.cons.inj hl
            rw [List.countP_cons_of_pos hq]
            exact Nat.succ_le_succ (h l₁ a l₂ rfl hpa hqa)
        · rintro h l₁ a l₂ rfl hpa hqa
          have hcount := h (first :: l₁) a l₂ rfl hpa hqa
          rw [List.countP_cons_of_pos hq] at hcount
          exact Nat.le_of_succ_le_succ hcount

section

variable [LinearOrder κ] {key : α → κ}

/-- In a listing sorted by key, the entries before one are those with smaller keys. -/
theorem countP_append_cons {l₁ l₂ : List α} {a : α}
    (hsorted : (l₁ ++ a :: l₂).Pairwise fun a b => key a < key b) :
    (l₁ ++ a :: l₂).countP (fun b => q b && decide (key b < key a)) = l₁.countP q := by
  obtain ⟨-, hrest, hcross⟩ := List.pairwise_append.mp hsorted
  have hbehind : (a :: l₂).countP (fun b => q b && decide (key b < key a)) = 0 := by
    rw [List.countP_eq_zero]
    intro b hb
    rcases List.mem_cons.mp hb with rfl | hb
    · simp
    · have hlt := (List.pairwise_cons.mp hrest).1 b hb
      simp [hlt.le]
  rw [List.countP_append, hbehind, Nat.add_zero]
  apply List.countP_congr
  intro b hb
  simp [hcross b hb a List.mem_cons_self]

/-- The page of a sorted listing. -/
theorem take_filter_sorted_iff (hsorted : l.Pairwise fun a b => key a < key b)
    (himp : ∀ a ∈ l, q a = true → p a = true) :
    (l.filter p).take n = (l.filter q).take n ↔ ∀ a ∈ l, p a = true → q a = false →
      n ≤ l.countP fun b => q b && decide (key b < key a) := by
  rw [take_filter_eq_iff himp]
  constructor
  · intro h a ha hpa hqa
    obtain ⟨l₁, l₂, rfl⟩ := List.append_of_mem ha
    rw [countP_append_cons hsorted]
    exact h l₁ a l₂ rfl hpa hqa
  · rintro h l₁ a l₂ rfl hpa hqa
    rw [← countP_append_cons hsorted]
    exact h a (by simp) hpa hqa

/-- Sorting a listing without repeated keys. -/
theorem pairwise_lt_insertionSort (hnodup : (l.map key).Nodup) :
    (l.insertionSort fun a b => key a ≤ key b).Pairwise fun a b => key a < key b := by
  let r : α → α → Prop := fun a b => key a ≤ key b
  have : Std.Total r := ⟨fun a b => le_total (key a) (key b)⟩
  have : IsTrans α r := ⟨fun a b c => le_trans⟩
  have hle := List.pairwise_insertionSort r l
  have hne : (l.insertionSort r).Pairwise fun a b => key a ≠ key b := by
    rw [← List.pairwise_map]
    exact ((List.perm_insertionSort r l).map key).nodup_iff.mpr hnodup
  exact (hle.and hne).imp fun h => lt_of_le_of_ne h.1 h.2

/-- What passes a test may be sorted before or after. -/
theorem insertionSort_filter (hnodup : (l.map key).Nodup) (p : α → Bool) :
    (l.filter p).insertionSort (fun a b => key a ≤ key b) =
      (l.insertionSort fun a b => key a ≤ key b).filter p := by
  let r : α → α → Prop := fun a b => key a ≤ key b
  have hsorted := (pairwise_lt_insertionSort hnodup).filter p
  have hnodup' : ((l.filter p).map key).Nodup := hnodup.sublist (List.filter_sublist.map key)
  have hfilter := pairwise_lt_insertionSort hnodup'
  refine List.Perm.eq_of_pairwise (fun a b _ _ hab hba => ?_) hfilter hsorted ?_
  · exact absurd (hab.trans hba) (lt_irrefl _)
  · exact (List.perm_insertionSort r _).trans ((List.perm_insertionSort r l).symm.filter p)

end

end DiskArcana.Lib.SortedPage
