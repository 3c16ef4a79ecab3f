import Mathlib.Data.List.Basic

/-!
# Tables with foreign keys

A database is a list of rows for each table, and a row gives each column a value or NULL. The schema
declares which lists of columns are unique and which columns refer to rows of other tables.

* `insert` refuses a row whose key is taken or whose references dangle;
* `deleteWhere` takes along what cascades from the rows it deletes (`goesWith`), and refuses when a row
  that stays refers to one that goes. What it leaves is `mem_deleteWhere`;
* a table that nothing refers to loses the rows that were asked for (`deleteWhere_of_no_child`), one that
  is referred to without cascades as well, unless a reference is left (`deleteWhere_of_restrict`), and
  where all references cascade the deletion goes through (`exists_deleteWhere`).
-/

namespace DiskArcana.Lib.Relational

variable {T C V : Type}

/-- A value or NULL for each column. -/
abbrev Row (C V : Type) := C → Option V

/-- The rows of each table. -/
abbrev Db (T C V : Type) := T → List (Row C V)

/-- `FOREIGN KEY (column) REFERENCES parent(key)`, with `ON DELETE CASCADE` or without. -/
structure ForeignKey (T C : Type) where
  child : T
  column : C
  parent : T
  key : C
  cascade : Bool
  deriving DecidableEq

structure Schema (T C : Type) where
  uniques : T → List (List C)
  foreignKeys : List (ForeignKey T C)

section Definitions

variable [DecidableEq T] [DecidableEq V] (S : Schema T C) (d : Db T C V)

/-- A row refers to another. NULL refers to none. -/
def references (fk : ForeignKey T C) (r p : Row C V) : Bool :=
  (r fk.column).isSome && r fk.column = p fk.key

/-- Two rows agree on a unique key. NULL is equal to nothing. -/
def sameKey (key : List C) (r r' : Row C V) : Bool :=
  key.all fun c => (r c).isSome && r c = r' c

def clashes (t : T) (r : Row C V) : Bool :=
  (S.uniques t).any fun key => (d t).any (sameKey key r)

/-- A reference of the row has no row to refer to. -/
def dangles (t : T) (r : Row C V) : Bool :=
  S.foreignKeys.any fun fk => fk.child = t && (r fk.column).isSome && !(d fk.parent).any (references fk r)

/-- The rows with a new one, unless it violates a constraint. -/
def insert (t : T) (r : Row C V) : Option (Db T C V) :=
  if clashes S d t r || dangles S d t r then none
  else some fun t' => if t' = t then d t ++ [r] else d t'

/-- `INSERT ... ON CONFLICT(key) DO UPDATE SET set = excluded.set`. -/
def upsert [DecidableEq C] (t : T) (r : Row C V) (key set : List C) : Option (Db T C V) :=
  if (d t).any (sameKey key r) then
    if dangles S d t r then none
    else some fun t' => if t' = t then (d t).map fun r' =>
      if sameKey key r r' then fun c => if c ∈ set then r c else r' c else r' else d t'
  else insert S d t r

/-- `UPDATE t SET column = value WHERE p`, of a column without constraints. -/
def updateWhere [DecidableEq C] (t : T) (p : Row C V → Bool) (column : C) (value : Option V) : Db T C V :=
  fun t' => if t' = t then (d t).map fun r =>
    if p r then fun c => if c = column then value else r c else r else d t'

/-- The rows of a set, and those that cascades of some depth lead to from them. -/
def doomed (seed : T → Row C V → Bool) : ℕ → T → Row C V → Bool
  | 0, t, r => seed t r
  | n + 1, t, r => doomed seed n t r ||
      S.foreignKeys.any fun fk => fk.cascade && fk.child = t &&
        (d fk.parent).any fun p => doomed seed n fk.parent p && references fk r p

/-- What goes with the rows of a table that satisfy a predicate. A chain of cascades is no longer than
the list of foreign keys. -/
def goesWith (t : T) (p : Row C V → Bool) : T → Row C V → Bool :=
  doomed S d (fun t' r => t' = t && p r) S.foreignKeys.length

/-- A row that stays refers to one that goes. -/
def blocked (gone : T → Row C V → Bool) : Bool :=
  S.foreignKeys.any fun fk => (d fk.child).any fun r =>
    !gone fk.child r && (d fk.parent).any fun q => gone fk.parent q && references fk r q

/-- `DELETE FROM t WHERE p`. `none` is a violated foreign key. -/
def deleteWhere (t : T) (p : Row C V → Bool) : Option (Db T C V) :=
  if blocked S d (goesWith S d t p) then none
  else some fun t' => (d t').filter fun r => !goesWith S d t p t' r

end Definitions

variable [DecidableEq T] {d d' : Db T C V} {t t' : T} {p : Row C V → Bool} {r : Row C V}

/-- The rows of a table that do not satisfy a predicate, and the other tables. -/
def without (d : Db T C V) (t : T) (p : Row C V → Bool) : Db T C V :=
  fun t' => (d t').filter fun r => !(t' = t && p r)

theorem mem_without : r ∈ without d t p t' ↔ r ∈ d t' ∧ ¬ (t' = t ∧ p r = true) := by
  simp [without, imp_iff_not_or]

/-- A deletion changes nothing exactly when the table has no such row. -/
theorem without_eq_self : without d t p = d ↔ ∀ r ∈ d t, p r = false := by
  constructor
  · intro hsame r hr
    by_contra hp
    rw [← hsame] at hr
    exact (mem_without.mp hr).2 ⟨rfl, by simpa using hp⟩
  · intro hno
    funext t'
    refine List.filter_eq_self.mpr fun r hr => ?_
    by_cases ht : t' = t
    · subst ht
      simp [hno r hr]
    · simp [ht]

variable [DecidableEq V] {S : Schema T C} {seed : T → Row C V → Bool} {n : ℕ}

/-- Cascades do not leave a set of tables that holds the children of its tables. -/
theorem of_doomed {A : T → Prop} (hseed : ∀ t r, seed t r = true → A t)
    (hcascade : ∀ fk ∈ S.foreignKeys, fk.cascade = true → A fk.parent → A fk.child)
    (h : doomed S d seed n t r = true) : A t := by
  induction n generalizing t r with
  | zero => exact hseed t r h
  | succ n ih =>
      simp only [doomed, Bool.or_eq_true, List.any_eq_true, Bool.and_eq_true, decide_eq_true_eq] at h
      rcases h with h | ⟨fk, hfk, ⟨hcas, rfl⟩, q, -, hq, -⟩
      · exact ih h
      · exact hcascade fk hfk hcas (ih hq)

/-- A table that no cascade leads to from the set loses the rows of the set only. -/
theorem doomed_iff_of_no_cascade {A : T → Prop} (hseed : ∀ t r, seed t r = true → A t)
    (hcascade : ∀ fk ∈ S.foreignKeys, fk.cascade = true → A fk.parent → A fk.child)
    (hno : ∀ fk ∈ S.foreignKeys, fk.cascade = true → A fk.parent → fk.child ≠ t) :
    doomed S d seed n t r = true ↔ seed t r = true := by
  induction n with
  | zero => exact Iff.rfl
  | succ n ih =>
      simp only [doomed, Bool.or_eq_true, List.any_eq_true, Bool.and_eq_true, decide_eq_true_eq]
      constructor
      · rintro (h | ⟨fk, hfk, ⟨hcas, hchild⟩, q, -, hq, -⟩)
        · exact ih.mp h
        · exact absurd hchild (hno fk hfk hcas (of_doomed hseed hcascade hq))
      · intro h
        exact .inl (ih.mpr h)

/-- Deeper cascades lead to more. -/
theorem doomed_mono {m : ℕ} (hmn : m ≤ n) (h : doomed S d seed m t r = true) :
    doomed S d seed n t r = true := by
  induction hmn with
  | refl => exact h
  | step _ ih => simp only [doomed, ih, Bool.true_or]

/-- Where each cascade leads to a table of higher rank, a table is reached within its rank. -/
theorem doomed_rank {rank : T → ℕ}
    (hrank : ∀ fk ∈ S.foreignKeys, fk.cascade = true → rank fk.parent < rank fk.child)
    (h : doomed S d seed n t r = true) : doomed S d seed (rank t) t r = true := by
  induction n generalizing t r with
  | zero => exact doomed_mono (Nat.zero_le _) h
  | succ n ih =>
      simp only [doomed, Bool.or_eq_true, List.any_eq_true, Bool.and_eq_true, decide_eq_true_eq] at h
      rcases h with h | ⟨fk, hfk, ⟨hcas, rfl⟩, q, hq, hgone, href⟩
      · exact ih h
      · apply doomed_mono (hrank fk hfk hcas)
        simp only [doomed, Bool.or_eq_true, List.any_eq_true, Bool.and_eq_true, decide_eq_true_eq]
        exact .inr ⟨fk, hfk, ⟨hcas, rfl⟩, q, hq, ih hgone, href⟩

/-- What refers to a row that goes, by a cascading key, goes with it. -/
theorem goesWith_of_references {rank : T → ℕ}
    (hrank : ∀ fk ∈ S.foreignKeys, fk.cascade = true → rank fk.parent < rank fk.child)
    (hbound : ∀ t, rank t ≤ S.foreignKeys.length) {fk : ForeignKey T C} (hfk : fk ∈ S.foreignKeys)
    (hcas : fk.cascade = true) {q : Row C V} (hq : q ∈ d fk.parent)
    (hgone : goesWith S d t p fk.parent q = true) (href : references fk r q = true) :
    goesWith S d t p fk.child r = true := by
  apply doomed_mono (Nat.le_trans (hrank fk hfk hcas) (hbound fk.child))
  simp only [doomed, Bool.or_eq_true, List.any_eq_true, Bool.and_eq_true, decide_eq_true_eq]
  exact .inr ⟨fk, hfk, ⟨hcas, rfl⟩, q, hq, doomed_rank hrank hgone, href⟩

/-- Without cascades from the table, only its own rows go. -/
theorem goesWith_of_no_cascade (hno : ∀ fk ∈ S.foreignKeys, fk.cascade = true → fk.parent ≠ t) :
    goesWith S d t p = fun t' r => t' = t && p r := by
  funext t' r
  have hiff : goesWith S d t p t' r = true ↔ (decide (t' = t) && p r) = true := by
    apply doomed_iff_of_no_cascade (A := fun t'' => t'' = t)
    · intro t'' r h
      simp only [Bool.and_eq_true, decide_eq_true_eq] at h
      exact h.1
    · intro fk hfk hcas hparent
      exact absurd hparent (hno fk hfk hcas)
    · intro fk hfk hcas hparent
      exact absurd hparent (hno fk hfk hcas)
  exact Bool.eq_iff_iff.mpr hiff

/-- Deleting from a table that no other refers to. -/
theorem deleteWhere_of_no_child (hno : ∀ fk ∈ S.foreignKeys, fk.parent ≠ t) :
    deleteWhere S d t p = some (without d t p) := by
  have hgone := goesWith_of_no_cascade (d := d) (p := p) fun fk hfk _ => hno fk hfk
  unfold deleteWhere
  rw [hgone, if_neg]
  · rfl
  · simp only [blocked, List.any_eq_true, Bool.and_eq_true, decide_eq_true_eq]
    rintro ⟨fk, hfk, r, -, -, q, -, ⟨hparent, -⟩, -⟩
    exact hno fk hfk hparent

/-- Deleting from a table that others refer to without cascades, none of them the table itself: it
fails when a row of theirs refers to one that is deleted. -/
theorem deleteWhere_of_restrict (hno : ∀ fk ∈ S.foreignKeys, fk.cascade = true → fk.parent ≠ t)
    (hself : ∀ fk ∈ S.foreignKeys, fk.parent = t → fk.child ≠ t) :
    deleteWhere S d t p =
      if (∃ fk ∈ S.foreignKeys, fk.parent = t ∧ ∃ r ∈ d fk.child, ∃ q ∈ d t, p q = true ∧
        references fk r q = true) then none else some (without d t p) := by
  have hblocked : blocked S d (fun t' r => t' = t && p r) = true ↔
      ∃ fk ∈ S.foreignKeys, fk.parent = t ∧ ∃ r ∈ d fk.child, ∃ q ∈ d t, p q = true ∧
        references fk r q = true := by
    simp only [blocked, List.any_eq_true, Bool.and_eq_true, decide_eq_true_eq]
    constructor
    · rintro ⟨fk, hfk, r, hr, -, q, hq, ⟨rfl, hp⟩, href⟩
      exact ⟨fk, hfk, rfl, r, hr, q, hq, hp, href⟩
    · rintro ⟨fk, hfk, rfl, r, hr, q, hq, hp, href⟩
      exact ⟨fk, hfk, r, hr, by simp [hself fk hfk rfl], q, hq, ⟨rfl, hp⟩, href⟩
  unfold deleteWhere
  rw [goesWith_of_no_cascade hno]
  by_cases hb : blocked S d (fun t' r => t' = t && p r) = true
  · rw [if_pos hb, if_pos (hblocked.mp hb)]
  · rw [if_neg hb, if_neg (fun h => hb (hblocked.mpr h))]
    rfl

/-- The rows that a deletion leaves. -/
theorem mem_deleteWhere (h : deleteWhere S d t p = some d') :
    r ∈ d' t' ↔ r ∈ d t' ∧ goesWith S d t p t' r = false := by
  unfold deleteWhere at h
  split_ifs at h
  cases h
  simp

/-- Where every reference to what can go cascades, the deletion goes through. -/
theorem exists_deleteWhere {A : T → Prop} {rank : T → ℕ} (ht : A t)
    (hcascade : ∀ fk ∈ S.foreignKeys, A fk.parent → fk.cascade = true ∧ A fk.child)
    (hrank : ∀ fk ∈ S.foreignKeys, fk.cascade = true → rank fk.parent < rank fk.child)
    (hbound : ∀ t, rank t ≤ S.foreignKeys.length) : ∃ d', deleteWhere S d t p = some d' := by
  have hfree : ¬ blocked S d (goesWith S d t p) = true := by
    simp only [blocked, List.any_eq_true, Bool.and_eq_true, Bool.not_eq_true']
    rintro ⟨fk, hfk, r, -, hstays, q, hq, hgone, href⟩
    have hA : A fk.parent := by
      refine of_doomed (fun t' r h => ?_) (fun fk hfk _ hA => (hcascade fk hfk hA).2) hgone
      simp only [Bool.and_eq_true, decide_eq_true_eq] at h
      exact h.1 ▸ ht
    have hgoes := goesWith_of_references hrank hbound hfk (hcascade fk hfk hA).1 hq hgone href
    rw [hgoes] at hstays
    cases hstays
  exact ⟨_, if_neg hfree⟩

end DiskArcana.Lib.Relational
