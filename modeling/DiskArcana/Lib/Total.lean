import Mathlib.Algebra.BigOperators.Group.Finset.Basic
import Mathlib.Algebra.GroupWithZero.Nat
import Mathlib.Algebra.Order.BigOperators.Group.Finset
import DiskArcana.Lib.Table

/-!
# Totals over a table

The sum of a weight over the values of a table, and how it moves:

* `total_ite`: entries are counted by the weights 1 and 0;
* `total_insert`: a write replaces the weight of the old entry by that of the new one;
* `total_le_of_weight_le`: totals compare as the entries do, key by key;
* `total_eq_of_weight_eq`: totals of two tables whose entries weigh the same, key by key;
* `sum_replace`: the same bookkeeping for a finite family of totals of which one changes.
-/

namespace DiskArcana.Lib

namespace Table

variable {κ β : Type} [DecidableEq κ] (w : β → ℕ)

/-- The sum of a weight over the values. -/
def total (t : Table κ β) : ℕ := (t.entries.map fun e => w e.2).sum

/-- The weight at one key; 0 where there is no entry. -/
def weight (t : Table κ β) (k : κ) : ℕ := ((t.lookup k).map w).getD 0

variable {w} {t t' : Table κ β}

/-- The total is the sum of the weights over any set of keys that covers the table. -/
theorem total_eq_sum {s : Finset κ} (hs : ∀ k, (t.lookup k).isSome → k ∈ s) :
    total w t = ∑ k ∈ s, weight w t k := by
  have hkeys : (t.entries.map Sigma.fst).Nodup := t.nodupKeys
  have hentries : total w t = ∑ k ∈ (t.entries.map Sigma.fst).toFinset, weight w t k := by
    rw [List.sum_toFinset _ hkeys, List.map_map]
    apply congrArg List.sum
    apply List.map_congr_left
    rintro ⟨k, b⟩ he
    show w b = weight w t k
    rw [weight, mem_entries_iff.mp he]
    rfl
  rw [hentries]
  apply Finset.sum_subset
  · intro k hk
    obtain ⟨⟨k', b⟩, he, rfl⟩ := List.mem_map.mp (List.mem_toFinset.mp hk)
    exact hs k' (by rw [mem_entries_iff.mp he]; rfl)
  · intro k _ hk
    cases hlookup : t.lookup k with
    | none =>
        rw [weight, hlookup]
        rfl
    | some b =>
        exact absurd (List.mem_toFinset.mpr (List.mem_map_of_mem (mem_entries_iff.mpr hlookup)))
          hk

/-- A finite set of keys that covers two tables. -/
theorem exists_cover (t t' : Table κ β) :
    ∃ s : Finset κ, (∀ k, (t.lookup k).isSome → k ∈ s) ∧ ∀ k, (t'.lookup k).isSome → k ∈ s := by
  refine ⟨(t.keys ++ t'.keys).toFinset, ?_, ?_⟩
  · intro k hk
    rw [AList.lookup_isSome] at hk
    exact List.mem_toFinset.mpr (List.mem_append_left _ hk)
  · intro k hk
    rw [AList.lookup_isSome] at hk
    exact List.mem_toFinset.mpr (List.mem_append_right _ hk)

/-- Totals compare as the entries do. -/
theorem total_le_of_weight_le (h : ∀ k, weight w t k ≤ weight w t' k) : total w t ≤ total w t' := by
  obtain ⟨s, hs, hs'⟩ := exists_cover t t'
  rw [total_eq_sum hs, total_eq_sum hs']
  exact Finset.sum_le_sum fun k _ => h k

/-- Tables whose entries weigh the same have the same total, each under its own weight. -/
theorem total_eq_of_weight_eq {w' : β → ℕ} (h : ∀ k, weight w t k = weight w' t' k) :
    total w t = total w' t' := by
  obtain ⟨s, hs, hs'⟩ := exists_cover t t'
  rw [total_eq_sum hs, total_eq_sum hs']
  exact Finset.sum_congr rfl fun k _ => h k

omit [DecidableEq κ] in
/-- Entries are counted by the weights 1 and 0. -/
theorem total_ite (p : β → Prop) [DecidablePred p] (t : Table κ β) :
    total (fun b => if p b then 1 else 0) t = t.entries.countP fun e => p e.2 := by
  unfold total
  induction t.entries with
  | nil => rfl
  | cons e entries ih =>
      rw [List.map_cons, List.sum_cons, ih, List.countP_cons, Nat.add_comm]
      simp

/-- A write replaces the weight of the old entry by that of the new one. -/
theorem total_insert (w : β → ℕ) (t : Table κ β) (k : κ) (b : β) :
    total w (t.insert k b) + weight w t k = total w t + w b := by
  obtain ⟨s, hs, hs'⟩ := exists_cover t (t.insert k b)
  have hk : k ∈ s := hs' k (by rw [AList.lookup_insert]; rfl)
  have hnew : weight w (t.insert k b) k = w b := by
    rw [weight, AList.lookup_insert]
    rfl
  have hrest : ∑ k' ∈ s.erase k, weight w (t.insert k b) k' = ∑ k' ∈ s.erase k, weight w t k' := by
    apply Finset.sum_congr rfl
    intro k' hk'
    rw [weight, weight, AList.lookup_insert_ne (Finset.ne_of_mem_erase hk')]
  rw [total_eq_sum hs, total_eq_sum hs', ← Finset.add_sum_erase s _ hk, ← Finset.add_sum_erase s _ hk,
    hnew, hrest]
  omega

end Table

/-- One member of a finite family changes, and may be new to it. -/
theorem sum_replace {ι : Type} [DecidableEq ι] {f f' : ι → ℕ} {s : Finset ι} {i : ι}
    (hother : ∀ j, j ≠ i → f' j = f j) (hnew : i ∉ s → f i = 0) :
    ∑ j ∈ insert i s, f' j + f i = ∑ j ∈ s, f j + f' i := by
  have hgrow : ∑ j ∈ s, f j = ∑ j ∈ insert i s, f j :=
    (Finset.sum_insert_of_eq_zero_if_notMem hnew).symm
  have hrest : ∑ j ∈ (insert i s).erase i, f' j = ∑ j ∈ (insert i s).erase i, f j :=
    Finset.sum_congr rfl fun j hj => hother j (Finset.ne_of_mem_erase hj)
  rw [hgrow, ← Finset.add_sum_erase _ f' (Finset.mem_insert_self i s),
    ← Finset.add_sum_erase _ f (Finset.mem_insert_self i s), hrest]
  omega

end DiskArcana.Lib
