import Mathlib.Data.List.Nodup
import Mathlib.Data.List.Dedup

/-!
# Rows under a unique key that may be NULL

The rows of an SQL table in the order of their rowids, each with the columns of one unique key and
the rest. Statements compare keys with `IS`, so that NULL is a value like any other, but the
constraint does not: a key with NULL in it clashes with nothing. So a statement that inserts can add
a second row of such a key, and that is the only way to one:

* `oneRow_insert`, `oneRow_insertOrIgnore`, `oneRow_upsert`: a table has one row a key after the
  statement exactly when it had before and the statement does not add to a key with NULL that has
  a row (`Repeats`);
* `select_insert`, `select_insertOrIgnore`, `select_upsert`: what a query by key then finds.
-/

namespace DiskArcana.Lib

variable {κ ρ : Type} [DecidableEq κ]

/-- The rows of a table, oldest first. -/
abbrev SqlRows (κ ρ : Type) := List (κ × ρ)

namespace SqlRows

/-- The keys of the rows. -/
def keys (t : SqlRows κ ρ) : List κ := t.map Prod.fst

/-- `SELECT … WHERE key IS k`, the first row. -/
def select (t : SqlRows κ ρ) (k : κ) : Option ρ := (t.find? fun e => e.1 = k).map Prod.snd

/-- `UPDATE … WHERE key IS k`. -/
def updateWhere (t : SqlRows κ ρ) (k : κ) (f : ρ → ρ) : SqlRows κ ρ :=
  t.map fun e => if e.1 = k then (e.1, f e.2) else e

/-- Every key has at most one row. -/
def OneRow (t : SqlRows κ ρ) : Prop := (keys t).Nodup

instance (t : SqlRows κ ρ) : Decidable (OneRow t) := inferInstanceAs (Decidable (List.Nodup _))

section

variable (hasNull : κ → Bool)

/-- A row of the key would violate the constraint. -/
def clashes (t : SqlRows κ ρ) (k : κ) : Bool := !hasNull k && decide (k ∈ keys t)

/-- `INSERT INTO …`; `none` when the constraint is violated. -/
def insert (t : SqlRows κ ρ) (k : κ) (r : ρ) : Option (SqlRows κ ρ) :=
  if clashes hasNull t k then none else some (t ++ [(k, r)])

/-- `INSERT OR IGNORE INTO …` -/
def insertOrIgnore (t : SqlRows κ ρ) (k : κ) (r : ρ) : SqlRows κ ρ :=
  if clashes hasNull t k then t else t ++ [(k, r)]

/-- `INSERT INTO … ON CONFLICT(key) DO UPDATE …` -/
def upsert (t : SqlRows κ ρ) (k : κ) (r : ρ) (f : ρ → ρ) : SqlRows κ ρ :=
  if clashes hasNull t k then updateWhere t k f else t ++ [(k, r)]

/-- An inserted row would be the second of a key with NULL. -/
def Repeats (t : SqlRows κ ρ) (k : κ) : Prop := hasNull k = true ∧ k ∈ keys t

instance (t : SqlRows κ ρ) (k : κ) : Decidable (Repeats hasNull t k) :=
  inferInstanceAs (Decidable (_ ∧ _))

end

variable {hasNull : κ → Bool} {t t' : SqlRows κ ρ} {k k' : κ} {r : ρ} {f : ρ → ρ}

/-! ## Keys -/

omit [DecidableEq κ] in
@[simp] theorem keys_append (t u : SqlRows κ ρ) : keys (t ++ u) = keys t ++ keys u :=
  List.map_append

omit [DecidableEq κ] in
@[simp] theorem keys_singleton (e : κ × ρ) : keys [e] = [e.1] := rfl

@[simp] theorem keys_updateWhere : keys (updateWhere t k f) = keys t := by
  unfold keys updateWhere
  rw [List.map_map]
  apply List.map_congr_left
  intro e _
  by_cases h : e.1 = k <;> simp [h]

/-- A key without a row. -/
theorem select_eq_none : select t k = none ↔ k ∉ keys t := by
  unfold select keys
  rw [Option.map_eq_none_iff, List.find?_eq_none, List.mem_map, not_exists]
  simp

/-- A key has a row. -/
theorem mem_keys_iff : k ∈ keys t ↔ ∃ r, select t k = some r := by
  rw [← Option.ne_none_iff_exists', Ne, select_eq_none, not_not]

/-! ## Queries after a statement -/

/-- What is found after an update, -/
theorem select_updateWhere :
    select (updateWhere t k f) k' = if k' = k then (select t k).map f else select t k' := by
  induction t with
  | nil => simp [select, updateWhere]
  | cons e t ih =>
      have hcons : ∀ (e : κ × ρ) (t : SqlRows κ ρ) (k : κ),
          select (e :: t) k = if e.1 = k then some e.2 else select t k := by
        intro e t k
        unfold select
        by_cases h : e.1 = k <;> simp [h]
      rw [show updateWhere (e :: t) k f = (if e.1 = k then (e.1, f e.2) else e) :: updateWhere t k f
        from rfl, hcons, hcons, hcons, ih]
      by_cases hk : e.1 = k
      · by_cases hk' : k' = k
        · simp [hk, hk']
        · simp [hk, hk', Ne.symm hk']
      · by_cases hk' : k' = k
        · simp [hk, hk']
        · simp [hk, hk']

/-- and after a row is added. -/
theorem select_append : select (t ++ [(k, r)]) k' =
    (select t k').or (if k' = k then some r else none) := by
  unfold select
  rw [List.find?_append]
  by_cases hk : k' = k
  · subst hk
    cases t.find? fun e => e.1 = k' <;> simp
  · cases t.find? fun e => e.1 = k' <;> simp [hk, Ne.symm hk]

/-- What is found after a row with a new key is added. -/
theorem select_append_of_notMem (h : k ∉ keys t) :
    select (t ++ [(k, r)]) k' = if k' = k then some r else select t k' := by
  rw [select_append]
  by_cases hk : k' = k
  · rw [hk, select_eq_none.mpr h, Option.none_or]
  · simp [hk]

omit [DecidableEq κ] in
theorem oneRow_append : OneRow (t ++ [(k, r)]) ↔ OneRow t ∧ k ∉ keys t := by
  unfold OneRow
  rw [keys_append, keys_singleton, ← List.concat_eq_append, List.nodup_concat, and_comm]

@[simp] theorem oneRow_updateWhere : OneRow (updateWhere t k f) ↔ OneRow t := by
  unfold OneRow
  rw [keys_updateWhere]

/-! ## Statements that insert -/

theorem clashes_eq_false : clashes hasNull t k = false ↔ (k ∈ keys t → hasNull k = true) := by
  unfold clashes
  by_cases hk : k ∈ keys t <;> simp [hk]

/-- A key that clashes has a row and no NULL. -/
theorem of_clashes (h : clashes hasNull t k = true) : hasNull k = false ∧ k ∈ keys t := by
  simpa [clashes] using h

/-- A row that is added without a clash or a repetition has a new key. -/
theorem notMem_keys (hclash : ¬ clashes hasNull t k = true) (hrep : ¬ Repeats hasNull t k) :
    k ∉ keys t := by
  intro hk
  rw [Bool.not_eq_true, clashes_eq_false] at hclash
  exact hrep ⟨hclash hk, hk⟩

/-- Adding a row that does not clash keeps one row a key unless it repeats a key. -/
theorem oneRow_append_iff (hclash : ¬ clashes hasNull t k = true) :
    OneRow (t ++ [(k, r)]) ↔ OneRow t ∧ ¬ Repeats hasNull t k := by
  rw [oneRow_append]
  constructor
  · rintro ⟨h, hk⟩
    exact ⟨h, fun hrep => hk hrep.2⟩
  · rintro ⟨h, hrep⟩
    exact ⟨h, notMem_keys hclash hrep⟩

theorem not_repeats_of_clashes (h : clashes hasNull t k = true) : ¬ Repeats hasNull t k := by
  rintro ⟨hnull, -⟩
  rw [(of_clashes h).1] at hnull
  cases hnull

/-- A refused row clashes. -/
theorem clashes_of_insert (h : insert hasNull t k r = none) : clashes hasNull t k = true := by
  unfold insert at h
  split_ifs at h with hclash
  exact hclash

theorem oneRow_insert (h : insert hasNull t k r = some t') :
    OneRow t' ↔ OneRow t ∧ ¬ Repeats hasNull t k := by
  unfold insert at h
  split_ifs at h with hclash
  cases h
  exact oneRow_append_iff hclash

theorem oneRow_insertOrIgnore :
    OneRow (insertOrIgnore hasNull t k r) ↔ OneRow t ∧ ¬ Repeats hasNull t k := by
  unfold insertOrIgnore
  split_ifs with hclash
  · exact (and_iff_left (not_repeats_of_clashes hclash)).symm
  · exact oneRow_append_iff hclash

/-- An upsert keeps one row a key, but for keys with NULL. -/
theorem oneRow_upsert : OneRow (upsert hasNull t k r f) ↔ OneRow t ∧ ¬ Repeats hasNull t k := by
  unfold upsert
  split_ifs with hclash
  · rw [oneRow_updateWhere]
    exact (and_iff_left (not_repeats_of_clashes hclash)).symm
  · exact oneRow_append_iff hclash

theorem select_insert (h : insert hasNull t k r = some t') (hrep : ¬ Repeats hasNull t k) :
    select t' k' = if k' = k then some r else select t k' := by
  unfold insert at h
  split_ifs at h with hclash
  cases h
  exact select_append_of_notMem (notMem_keys hclash hrep)

theorem keys_subset_updateWhere : keys t ⊆ keys (updateWhere t k f) := by
  rw [keys_updateWhere]
  exact List.Subset.refl _

omit [DecidableEq κ] in
theorem keys_subset_append : keys t ⊆ keys (t ++ [(k, r)]) := by
  rw [keys_append]
  exact List.subset_append_left _ _

/-- No key goes when a row is added. -/
theorem keys_subset_of_insert (h : insert hasNull t k r = some t') : keys t ⊆ keys t' := by
  unfold insert at h
  split_ifs at h
  cases h
  exact keys_subset_append

/-- A row that is there already is left alone. -/
theorem insertOrIgnore_of_mem (hk : k ∈ keys t) (hrep : ¬ Repeats hasNull t k) :
    insertOrIgnore hasNull t k r = t := by
  unfold insertOrIgnore
  rw [if_pos]
  by_contra hclash
  exact notMem_keys hclash hrep hk

theorem mem_keys_insertOrIgnore :
    k' ∈ keys (insertOrIgnore hasNull t k r) ↔ k' = k ∨ k' ∈ keys t := by
  unfold insertOrIgnore
  split_ifs with hclash
  · have hk := (of_clashes hclash).2
    constructor
    · exact Or.inr
    · rintro (rfl | h)
      · exact hk
      · exact h
  · simp [or_comm]

theorem select_upsert (hrep : ¬ Repeats hasNull t k) : select (upsert hasNull t k r f) k' =
    if k' = k then some (((select t k).map f).getD r) else select t k' := by
  unfold upsert
  split_ifs with hclash hk hk
  · obtain ⟨old, hold⟩ := mem_keys_iff.mp (of_clashes hclash).2
    rw [select_updateWhere, if_pos hk, hold]
    rfl
  · rw [select_updateWhere, if_neg hk]
  · have hnew := notMem_keys hclash hrep
    rw [select_append_of_notMem hnew, if_pos hk, select_eq_none.mpr hnew]
    rfl
  · rw [select_append_of_notMem (notMem_keys hclash hrep), if_neg hk]

end SqlRows

end DiskArcana.Lib
