import Mathlib.Data.List.AList
import Mathlib.Data.List.Induction
import Mathlib.Data.List.Sort

/-!
# Keyed tables written by folds

A table is Mathlib's `AList` at a constant family. Programs fill one from a list and read one back
as a list, and both are described here pointwise:

* **last write wins** (`insertAll`, `collect`): folding `insert` over a list leaves, at each key,
  the value of the last element of the list with that key, and the old value where there is
  none (`lookup_insertAll`);
* **one element a key** (`lookup_updateAll_filterMap`): when every element writes at most one
  entry, at its own key, and the keys of the list are distinct, the table after the fold is
  a pointwise update;
* **permitted writes** (`ChangesBy`): a table that differs from another only by entries out of a
  given set of writes; such changes compose;
* **listings** (`Lists`): a list that holds exactly the values of a partial function, each under
  its own key. Searching or collecting such a list gives the function back;
* **last positions** (`lookup_lastIdx`): a list indexed by the last position of each key;
* **folds that write** (`lookup_foldl_of_not_written`, `exists_lookup_foldl_of_written`): a fold over
  any state with a table in it, whose steps write at most one entry;
* **families** (`foldl_update_of_mem`): the same for a family of states of which each step changes one.
-/

namespace DiskArcana.Lib

variable {α β γ κ : Type}

/-- A finite table from `κ` to `β`. -/
abbrev Table (κ β : Type) := AList (fun _ : κ => β)

namespace Table

variable [DecidableEq κ]

/-- Write every element of a list into a table, in order. -/
def insertAll (key : α → κ) (val : α → β) (t : Table κ β) (l : List α) : Table κ β :=
  l.foldl (fun t a => t.insert (key a) (val a)) t

/-- Write every element of a list into a table, in order, where the new value of a key may use the
old one. -/
def updateAll (key : α → κ) (val : Option β → α → β) (t : Table κ β) (l : List α) : Table κ β :=
  l.foldl (fun t a => t.insert (key a) (val (t.lookup (key a)) a)) t

/-- Drop the entries that satisfy a predicate. -/
def eraseWhere (p : κ → β → Bool) (t : Table κ β) : Table κ β :=
  ⟨t.entries.filter fun e => !p e.1 e.2, t.nodupKeys.sublist List.filter_sublist⟩

/-- Change the values of a table. -/
def mapValues (f : κ → β → γ) (t : Table κ β) : Table κ γ :=
  ⟨t.entries.map fun e => ⟨e.1, f e.1 e.2⟩, by
    have hkeys : (t.entries.map fun e => (⟨e.1, f e.1 e.2⟩ : Sigma fun _ : κ => γ)).keys = t.entries.keys :=
      List.map_map
    rw [List.NodupKeys, hkeys]
    exact t.nodupKeys⟩

/-- The table a list denotes when a later element replaces an earlier one of the same key. -/
def collect (key : α → κ) (l : List α) : Table κ α := insertAll key id ∅ l

@[simp] theorem insertAll_nil (key : α → κ) (val : α → β) (t : Table κ β) :
    insertAll key val t [] = t := rfl

@[simp] theorem insertAll_cons (key : α → κ) (val : α → β) (t : Table κ β) (a : α) (l : List α) :
    insertAll key val t (a :: l) = insertAll key val (t.insert (key a) (val a)) l := rfl

@[simp] theorem updateAll_nil (key : α → κ) (val : Option β → α → β) (t : Table κ β) :
    updateAll key val t [] = t := rfl

@[simp] theorem updateAll_cons (key : α → κ) (val : Option β → α → β) (t : Table κ β) (a : α)
    (l : List α) :
    updateAll key val t (a :: l) =
      updateAll key val (t.insert (key a) (val (t.lookup (key a)) a)) l := rfl

/-- Plain insertion is an update that ignores the old value. -/
theorem insertAll_eq_updateAll (key : α → κ) (val : α → β) (t : Table κ β) (l : List α) :
    insertAll key val t l = updateAll key (fun _ => val) t l := rfl

/-- Reading after one write. -/
theorem lookup_insert_eq_ite (t : Table κ β) (k k' : κ) (b : β) :
    (t.insert k b).lookup k' = if k' = k then some b else t.lookup k' := by
  by_cases h : k' = k
  · subst h
    rw [if_pos rfl, AList.lookup_insert]
  · rw [if_neg h, AList.lookup_insert_ne h]

/-- What is left after an entry is dropped. -/
theorem of_lookup_erase {t : Table κ β} {k k' : κ} {b : β} (h : (t.erase k).lookup k' = some b) :
    k' ≠ k ∧ t.lookup k' = some b := by
  by_cases hk : k' = k
  · subst hk
    rw [AList.lookup_erase] at h
    cases h
  · exact ⟨hk, by rwa [AList.lookup_erase_ne hk] at h⟩

/-- Dropping an entry that is not there. -/
theorem erase_eq_self {t : Table κ β} {k : κ} (h : t.lookup k = none) : t.erase k = t :=
  AList.ext (List.kerase_of_notMem_keys (AList.lookup_eq_none.mp h))

/-- Dropping an entry that has just been made. -/
theorem erase_insert_of_none {t : Table κ β} {k : κ} (h : t.lookup k = none) (b : β) :
    (t.insert k b).erase k = t := by
  apply AList.ext
  change List.kerase k (t.insert k b).entries = t.entries
  have hself : t.entries.kerase k = t.entries :=
    List.kerase_of_notMem_keys (AList.lookup_eq_none.mp h)
  rw [AList.entries_insert, hself]
  exact List.kerase_cons_eq rfl

/-- Last write wins: the entry at `k` is that of the last element with key `k`, else the old one. -/
theorem lookup_insertAll (key : α → κ) (val : α → β) (t : Table κ β) (l : List α) (k : κ) :
    (insertAll key val t l).lookup k =
      ((l.reverse.find? fun a => decide (key a = k)).map val).or (t.lookup k) := by
  induction l generalizing t with
  | nil => simp
  | cons a l ih =>
      rw [insertAll_cons, ih, lookup_insert_eq_ite, List.reverse_cons, List.find?_append]
      rcases hf : l.reverse.find? (fun a => decide (key a = k)) with _ | b
      · by_cases h : key a = k
        · simp [h]
        · simp [h, Ne.symm h]
      · simp

theorem lookup_insertAll_of_notMem {key : α → κ} {val : α → β} {t : Table κ β} {l : List α} {k : κ}
    (h : k ∉ l.map key) : (insertAll key val t l).lookup k = t.lookup k := by
  have hnone : (l.reverse.find? fun a => decide (key a = k)) = none := by
    rw [List.find?_eq_none]
    intro a ha
    simpa using fun hk => h (List.mem_map.mpr ⟨a, List.mem_reverse.mp ha, hk⟩)
  rw [lookup_insertAll, hnone]
  rfl

/-- Where the keys of the list are distinct, each element is found at its key. -/
theorem lookup_insertAll_of_mem {key : α → κ} {val : α → β} {l : List α} (hnodup : (l.map key).Nodup)
    (t : Table κ β) {a : α} (ha : a ∈ l) : (insertAll key val t l).lookup (key a) = some (val a) := by
  have hfind : (l.reverse.find? fun b => decide (key b = key a)) = some a := by
    obtain ⟨b, hb⟩ := Option.isSome_iff_exists.mp
      (List.find?_isSome.mpr ⟨a, List.mem_reverse.mpr ha, by simp⟩ :
        (l.reverse.find? fun b => decide (key b = key a)).isSome)
    have hmem := List.mem_reverse.mp (List.mem_of_find?_eq_some hb)
    have hkey : key b = key a := by simpa using List.find?_some hb
    rw [hb, List.inj_on_of_nodup_map hnodup hmem ha hkey]
  rw [lookup_insertAll, hfind]
  rfl

/-- Writing one value at some keys. -/
theorem lookup_insertAll_const {key : α → κ} {b : β} {t : Table κ β} {l : List α} {k : κ}
    (h : k ∈ l.map key) : (insertAll key (fun _ => b) t l).lookup k = some b := by
  have hsome : (l.reverse.find? fun a => decide (key a = k)).isSome := by
    obtain ⟨a, ha, hk⟩ := List.mem_map.mp h
    exact List.find?_isSome.mpr ⟨a, List.mem_reverse.mpr ha, by simpa using hk⟩
  obtain ⟨a, ha⟩ := Option.isSome_iff_exists.mp hsome
  rw [lookup_insertAll, ha]
  rfl

/-- The table of a list at a key is the last element of the list with that key. -/
theorem lookup_collect (key : α → κ) (l : List α) (k : κ) :
    (collect key l).lookup k = l.reverse.find? fun a => decide (key a = k) := by
  rw [collect, lookup_insertAll]
  simp

/-- What a collected table holds at `k` is an element of the list with key `k`. -/
theorem of_lookup_collect {key : α → κ} {l : List α} {k : κ} {a : α}
    (h : (collect key l).lookup k = some a) : a ∈ l ∧ key a = k := by
  rw [lookup_collect] at h
  exact ⟨List.mem_reverse.mp (List.mem_of_find?_eq_some h), by simpa using List.find?_some h⟩

/-- A collected table is empty at `k` exactly when no element has that key. -/
theorem lookup_collect_eq_none {key : α → κ} {l : List α} {k : κ} :
    (collect key l).lookup k = none ↔ ∀ a ∈ l, key a ≠ k := by
  rw [lookup_collect, List.find?_eq_none]
  simp

/-- What a table written from nothing holds at `k` was written by an element with key `k`. -/
theorem of_lookup_insertAll_empty {key : α → κ} {val : α → β} {l : List α} {k : κ} {b : β}
    (h : (insertAll key val ∅ l).lookup k = some b) : ∃ a ∈ l, key a = k ∧ val a = b := by
  rw [lookup_insertAll, AList.lookup_empty, Option.or_none] at h
  obtain ⟨a, ha, hb⟩ := Option.map_eq_some_iff.mp h
  exact ⟨a, List.mem_reverse.mp (List.mem_of_find?_eq_some ha), by simpa using List.find?_some ha,
    hb⟩

/-- An update leaves the keys alone that no element has. -/
theorem lookup_updateAll_of_forall_ne {key : α → κ} {val : Option β → α → β} {t : Table κ β}
    {l : List α} {k : κ} (h : ∀ a ∈ l, key a ≠ k) :
    (updateAll key val t l).lookup k = t.lookup k := by
  induction l generalizing t with
  | nil => rfl
  | cons a l ih =>
      rw [updateAll_cons, ih fun x hx => h x (List.mem_cons_of_mem _ hx),
        AList.lookup_insert_ne (h a List.mem_cons_self).symm]

/-- **Pointwise update.** When each `a` of a list writes at most one entry `f a`, at its own key
`ka a`, and the keys of the list are distinct, the fold changes the table at `ka a` to `f a` where
that is present and leaves it alone elsewhere. -/
theorem lookup_updateAll_filterMap {ka : α → κ} {key : γ → κ} {val : Option β → γ → β}
    {f : α → Option γ} {l : List α} (hl : (l.map ka).Nodup)
    (hf : ∀ a ∈ l, ∀ c, f a = some c → key c = ka a) (t : Table κ β) {a : α} (ha : a ∈ l) {k : κ}
    (hk : ka a = k) :
    (updateAll key val t (l.filterMap f)).lookup k =
      ((f a).map (val (t.lookup k))).or (t.lookup k) := by
  subst hk
  induction l generalizing t with
  | nil => exact absurd ha List.not_mem_nil
  | cons b l ih =>
      rw [List.map_cons, List.nodup_cons] at hl
      have hf' : ∀ a ∈ l, ∀ c, f a = some c → key c = ka a :=
        fun x hx => hf x (List.mem_cons_of_mem _ hx)
      rcases List.mem_cons.mp ha with rfl | ha'
      · -- the head writes its key, and nothing in the tail touches it again
        have hrest : ∀ c ∈ l.filterMap f, key c ≠ ka a := by
          intro c hc
          obtain ⟨x, hx, hfx⟩ := List.mem_filterMap.mp hc
          rw [hf' x hx c hfx]
          intro hxa
          exact hl.1 (hxa ▸ List.mem_map_of_mem hx)
        rcases hfa : f a with _ | c
        · rw [List.filterMap_cons_none hfa, lookup_updateAll_of_forall_ne hrest]
          rfl
        · rw [List.filterMap_cons_some hfa, updateAll_cons, lookup_updateAll_of_forall_ne hrest,
            hf a List.mem_cons_self c hfa, AList.lookup_insert]
          rfl
      · have hne : ka a ≠ ka b := by
          intro hab
          exact hl.1 (hab ▸ List.mem_map_of_mem ha')
        rcases hfb : f b with _ | c
        · rw [List.filterMap_cons_none hfb]
          exact ih hl.2 hf' t ha'
        · rw [List.filterMap_cons_some hfb, updateAll_cons, ih hl.2 hf' _ ha',
            hf b List.mem_cons_self c hfb, AList.lookup_insert_ne hne]

/-- The entries of a table at a key. -/
theorem mem_entries_iff {t : Table κ β} {k : κ} {b : β} :
    (⟨k, b⟩ : Sigma fun _ : κ => β) ∈ t.entries ↔ t.lookup k = some b :=
  AList.mem_lookup_iff.symm

theorem forall_entries_iff {t : Table κ β} {P : κ → β → Prop} :
    (∀ e ∈ t.entries, P e.1 e.2) ↔ ∀ k b, t.lookup k = some b → P k b := by
  constructor
  · intro h k b hb
    exact h ⟨k, b⟩ (mem_entries_iff.mpr hb)
  · rintro h ⟨k, b⟩ hmem
    exact h k b (mem_entries_iff.mp hmem)

theorem exists_entries_iff {t : Table κ β} {P : κ → β → Prop} :
    (∃ e ∈ t.entries, P e.1 e.2) ↔ ∃ k b, t.lookup k = some b ∧ P k b := by
  constructor
  · rintro ⟨⟨k, b⟩, hmem, h⟩
    exact ⟨k, b, mem_entries_iff.mp hmem, h⟩
  · rintro ⟨k, b, hb, h⟩
    exact ⟨⟨k, b⟩, mem_entries_iff.mpr hb, h⟩

/-- What is left after dropping entries. -/
theorem lookup_eraseWhere (p : κ → β → Bool) (t : Table κ β) (k : κ) :
    (eraseWhere p t).lookup k = (t.lookup k).filter fun b => !p k b := by
  ext b
  rw [Option.filter_eq_some_iff, ← mem_entries_iff, ← mem_entries_iff]
  exact List.mem_filter

/-- A changed table, entry by entry. -/
theorem lookup_mapValues (f : κ → β → γ) (t : Table κ β) (k : κ) :
    (mapValues f t).lookup k = (t.lookup k).map (f k) := by
  ext c
  rw [Option.map_eq_some_iff, ← mem_entries_iff]
  constructor
  · intro hc
    obtain ⟨⟨k', b⟩, hb, heq⟩ := List.mem_map.mp hc
    cases heq
    exact ⟨b, mem_entries_iff.mp hb, rfl⟩
  · rintro ⟨b, hb, rfl⟩
    exact List.mem_map.mpr ⟨⟨k, b⟩, mem_entries_iff.mpr hb, rfl⟩

/-- Collecting changed elements, when they keep their keys. -/
theorem lookup_collect_map (key : α → κ) (key' : γ → κ) (f : α → γ) (hf : ∀ a, key' (f a) = key a)
    (l : List α) (k : κ) : (collect key' (l.map f)).lookup k = ((collect key l).lookup k).map f := by
  rw [lookup_collect, lookup_collect, ← List.map_reverse, List.find?_map]
  simp only [Function.comp_def, hf]

/-! ## Permitted writes -/

/-- Every entry of the second table is that of the first, or a permitted write. -/
def ChangesBy (W : κ → β → Prop) (t t' : Table κ β) : Prop :=
  ∀ k, t'.lookup k = t.lookup k ∨ ∃ b, W k b ∧ t'.lookup k = some b

namespace ChangesBy

variable {W W' : κ → β → Prop} {t t' t'' : Table κ β}

theorem refl (W : κ → β → Prop) (t : Table κ β) : ChangesBy W t t := fun _ => Or.inl rfl

theorem insert (h : ChangesBy W t t') {k : κ} {b : β} (hw : W k b) :
    ChangesBy W t (t'.insert k b) := by
  intro k'
  rw [lookup_insert_eq_ite]
  split_ifs with hk
  · subst hk
    exact Or.inr ⟨b, hw, rfl⟩
  · exact h k'

theorem trans (h : ChangesBy W t t') (h' : ChangesBy W t' t'') : ChangesBy W t t'' := by
  intro k
  rcases h' k with heq | hnew
  · rw [heq]
    exact h k
  · exact Or.inr hnew

theorem mono (h : ChangesBy W t t') (hW : ∀ k b, W k b → W' k b) : ChangesBy W' t t' := by
  intro k
  rcases h k with heq | ⟨b, hb, hnew⟩
  · exact Or.inl heq
  · exact Or.inr ⟨b, hW k b hb, hnew⟩

/-- Where nothing may be written, nothing changes. -/
theorem lookup_eq (h : ChangesBy W t t') {k : κ} (hk : ∀ b, ¬ W k b) : t'.lookup k = t.lookup k := by
  rcases h k with heq | ⟨b, hb, -⟩
  · exact heq
  · exact absurd hb (hk b)

/-- What is there was there before, or was written. -/
theorem of_lookup (h : ChangesBy W t t') {k : κ} {b : β} (hb : t'.lookup k = some b) :
    t.lookup k = some b ∨ W k b := by
  rcases h k with heq | ⟨b', hw, hnew⟩
  · exact Or.inl (heq.symm.trans hb)
  · rw [hnew] at hb
    cases hb
    exact Or.inr hw

end ChangesBy

/-! ## Listings -/

/-- The list holds exactly the values of `f`, each under its own key. -/
structure Lists (key : α → κ) (f : κ → Option α) (l : List α) : Prop where
  mem_iff : ∀ a, a ∈ l ↔ f (key a) = some a
  key_eq : ∀ k a, f k = some a → key a = k

namespace Lists

variable {key : α → κ} {f : κ → Option α} {l : List α}

/-- Collecting a listing gives the function back. -/
theorem lookup_collect (h : Lists key f l) (k : κ) : (collect key l).lookup k = f k := by
  rcases hc : (collect key l).lookup k with _ | a
  · rcases hf : f k with _ | a
    · rfl
    · have hk := h.key_eq k a hf
      exact absurd hk (lookup_collect_eq_none.mp hc a ((h.mem_iff a).mpr (hk ▸ hf)))
  · obtain ⟨ha, rfl⟩ := of_lookup_collect hc
    exact ((h.mem_iff a).mp ha).symm

/-- So does searching it. -/
theorem find?_eq (h : Lists key f l) (k : κ) : (l.find? fun a => decide (key a = k)) = f k := by
  rcases hc : l.find? (fun a => decide (key a = k)) with _ | a
  · rcases hf : f k with _ | a
    · rfl
    · have hk := h.key_eq k a hf
      have := List.find?_eq_none.mp hc a ((h.mem_iff a).mpr (hk ▸ hf))
      simp [hk] at this
  · have hk : key a = k := by simpa using List.find?_some hc
    rw [← hk]
    exact ((h.mem_iff a).mp (List.mem_of_find?_eq_some hc)).symm

omit [DecidableEq κ] in
/-- Filtering a listing by a predicate on keys restricts the function. -/
theorem filter (h : Lists key f l) (p : κ → Bool) :
    Lists key (fun k => if p k then f k else none) (l.filter fun a => p (key a)) where
  mem_iff a := by
    rw [List.mem_filter, h.mem_iff]
    by_cases hp : p (key a) = true <;> simp [hp]
  key_eq k a ha := by
    split_ifs at ha
    exact h.key_eq k a ha

omit [DecidableEq κ] in
/-- Mapping a listing by a function that keeps the keys maps the function's values. -/
theorem map (h : Lists key f l) (key' : γ → κ) (g : α → γ) (hg : ∀ a, key' (g a) = key a) :
    Lists key' (fun k => (f k).map g) (l.map g) where
  mem_iff c := by
    rw [List.mem_map, Option.map_eq_some_iff]
    constructor
    · rintro ⟨a, ha, rfl⟩
      exact ⟨a, by rw [hg]; exact (h.mem_iff a).mp ha, rfl⟩
    · rintro ⟨a, ha, rfl⟩
      rw [hg] at ha
      exact ⟨a, (h.mem_iff a).mpr ha, rfl⟩
  key_eq k c hc := by
    obtain ⟨a, ha, rfl⟩ := Option.map_eq_some_iff.mp hc
    rw [hg]
    exact h.key_eq k a ha

omit [DecidableEq κ] in
/-- The order of a listing does not matter. -/
theorem perm (h : Lists key f l) {l' : List α} (hp : l'.Perm l) : Lists key f l' where
  mem_iff a := hp.mem_iff.trans (h.mem_iff a)
  key_eq := h.key_eq

omit [DecidableEq κ] in
/-- Two listings of one function, without repetition, are one list when they are sorted by key. -/
theorem sort_eq (h : Lists key f l) {l' : List α} (h' : Lists key f l') (hl : (l.map key).Nodup)
    (hl' : (l'.map key).Nodup) (r : κ → κ → Prop) [DecidableRel r] [Std.Total r] [IsTrans κ r]
    [Std.Antisymm r] :
    (l.insertionSort fun a b => r (key a) (key b)) =
      l'.insertionSort fun a b => r (key a) (key b) := by
  have hperm : l.Perm l' := (List.perm_ext_iff_of_nodup (List.Nodup.of_map key hl)
    (List.Nodup.of_map key hl')).mpr fun a => (h.mem_iff a).trans (h'.mem_iff a).symm
  let rel : α → α → Prop := fun a b => r (key a) (key b)
  have : Std.Total rel := ⟨fun a b => Std.Total.total (key a) (key b)⟩
  have : IsTrans α rel := ⟨fun a b c hab hbc => IsTrans.trans (key a) (key b) (key c) hab hbc⟩
  refine List.Perm.eq_of_pairwise ?_ (List.pairwise_insertionSort rel l)
    (List.pairwise_insertionSort rel l') ?_
  · intro a b ha hb hab hba
    have hkey : key a = key b := Std.Antisymm.antisymm _ _ hab hba
    have hfa := (h.mem_iff a).mp ((List.mem_insertionSort rel).mp ha)
    have hfb := (h'.mem_iff b).mp ((List.mem_insertionSort rel).mp hb)
    rw [hkey, hfb] at hfa
    exact (Option.some.inj hfa).symm
  · exact ((List.perm_insertionSort rel l).trans hperm).trans (List.perm_insertionSort rel l').symm

/-- Reading a table out entry by entry is a listing of its lookup function. -/
theorem entries (t : Table κ β) (val : κ → β → α) (hval : ∀ k b, key (val k b) = k) :
    Lists key (fun k => (t.lookup k).map (val k)) (t.entries.map fun e => val e.1 e.2) where
  mem_iff a := by
    rw [List.mem_map, Option.map_eq_some_iff]
    constructor
    · rintro ⟨⟨k, b⟩, he, rfl⟩
      exact ⟨b, by rw [hval]; exact mem_entries_iff.mp he, by rw [hval]⟩
    · rintro ⟨b, hb, ha⟩
      exact ⟨⟨key a, b⟩, mem_entries_iff.mpr hb, ha⟩
  key_eq k a ha := by
    obtain ⟨b, -, rfl⟩ := Option.map_eq_some_iff.mp ha
    exact hval k b

/-- Reading out the entries under one first key of a composite key. -/
theorem entriesAt {ν : Type} [DecidableEq ν] (t : Table (ν × κ) β) (n : ν) (val : κ → β → α)
    (hval : ∀ k b, key (val k b) = k) :
    Lists key (fun k => (t.lookup (n, k)).map (val k))
      ((t.entries.filter fun e => decide (e.1.1 = n)).map fun e => val e.1.2 e.2) where
  mem_iff a := by
    rw [List.mem_map, Option.map_eq_some_iff]
    constructor
    · rintro ⟨⟨⟨m, k⟩, b⟩, he, rfl⟩
      obtain ⟨he, hm⟩ := List.mem_filter.mp he
      have hm : m = n := by simpa using hm
      refine ⟨b, ?_, by rw [hval]⟩
      rw [hval, ← hm]
      exact mem_entries_iff.mp he
    · rintro ⟨b, hb, ha⟩
      exact ⟨⟨(n, key a), b⟩, List.mem_filter.mpr ⟨mem_entries_iff.mpr hb, by simp⟩, ha⟩
  key_eq k a ha := by
    obtain ⟨b, -, rfl⟩ := Option.map_eq_some_iff.mp ha
    exact hval k b

end Lists

/-! ## Last positions -/

/-- The position of the last element of each key, over the elements that have one. -/
def lastIdx (key : α → Option κ) (l : List α) : Table κ ℕ :=
  insertAll Prod.fst Prod.snd ∅ <| l.zipIdx.filterMap fun (a, idx) =>
    (key a).map fun k => (k, idx)

/-- One more element at the end. -/
theorem lookup_lastIdx_append (key : α → Option κ) (l : List α) (a : α) (k : κ) :
    (lastIdx key (l ++ [a])).lookup k =
      if key a = some k then some l.length else (lastIdx key l).lookup k := by
  unfold lastIdx
  rw [List.zipIdx_append, List.filterMap_append, insertAll, List.foldl_append]
  change (insertAll _ _ (insertAll _ _ _ _) _).lookup k = _
  rcases hk : key a with _ | k'
  · simp [hk]
  · simp only [List.zipIdx_cons, List.zipIdx_nil, List.filterMap_cons, hk, Option.map_some,
      List.filterMap_nil, insertAll_cons, insertAll_nil, lookup_insert_eq_ite, Option.some.injEq,
      Nat.zero_add, eq_comm]

/-- **The table holds the last position of a key.** -/
theorem lookup_lastIdx {key : α → Option κ} {l : List α} {k : κ} {j : ℕ} :
    (lastIdx key l).lookup k = some j ↔
      (∃ a, l[j]? = some a ∧ key a = some k) ∧
        ∀ j' a, l[j']? = some a → key a = some k → j' ≤ j := by
  induction l using List.reverseRecOn with
  | nil => simp [lastIdx]
  | append_singleton l a ih =>
      have hlt : ∀ {i : ℕ} {b : α}, l[i]? = some b → i < l.length :=
        fun h => (List.getElem?_eq_some_iff.mp h).1
      have hcases : ∀ {i : ℕ} {b : α}, (l ++ [a])[i]? = some b →
          l[i]? = some b ∨ (i = l.length ∧ b = a) := by
        intro i b h
        rw [List.getElem?_append] at h
        split_ifs at h with hi
        · exact Or.inl h
        · obtain ⟨hi', hb⟩ := List.getElem?_eq_some_iff.mp h
          rw [List.length_singleton] at hi'
          refine Or.inr ⟨by omega, ?_⟩
          simpa using hb.symm
      have hold : ∀ {i : ℕ} {b : α}, l[i]? = some b → (l ++ [a])[i]? = some b := by
        intro i b h
        rw [List.getElem?_append_left (hlt h), h]
      rw [lookup_lastIdx_append]
      split_ifs with ha
      · constructor
        · rintro ⟨⟩
          refine ⟨⟨a, by simp, ha⟩, fun j' b hb _ => ?_⟩
          rcases hcases hb with hb | ⟨rfl, -⟩
          · exact Nat.le_of_lt (hlt hb)
          · exact le_rfl
        · rintro ⟨⟨b, hb, -⟩, hlast⟩
          have hle := hlast l.length a (by simp) ha
          rcases hcases hb with hb | ⟨rfl, -⟩
          · exact absurd (hlt hb) (by omega)
          · rfl
      · rw [ih]
        constructor
        · rintro ⟨⟨b, hb, hk⟩, hlast⟩
          refine ⟨⟨b, hold hb, hk⟩, fun j' c hc hck => ?_⟩
          rcases hcases hc with hc | ⟨-, rfl⟩
          · exact hlast j' c hc hck
          · exact absurd hck ha
        · rintro ⟨⟨b, hb, hk⟩, hlast⟩
          refine ⟨⟨b, ?_, hk⟩, fun j' c hc hck => hlast j' c (hold hc) hck⟩
          rcases hcases hb with hb | ⟨-, rfl⟩
          · exact hb
          · exact absurd hk ha

/-! ## Folds of writes -/

section Folds

variable {σ : Type} (tableOf : σ → Table κ β) (key : α → κ) (writes : α → Bool) {step : σ → α → σ}
  {P : α → β → Prop} {l : List α}

/-- Where no element of the list writes, a fold of writes leaves the table as it is. -/
theorem lookup_foldl_of_not_written
    (hwrite : ∀ s, ∀ a ∈ l, writes a = true → ∃ b, P a b ∧
      tableOf (step s a) = (tableOf s).insert (key a) b)
    (hskip : ∀ s, ∀ a ∈ l, writes a = false → tableOf (step s a) = tableOf s) {s : σ} {k : κ}
    (hk : ∀ a ∈ l, key a = k → writes a = false) :
    (tableOf (l.foldl step s)).lookup k = (tableOf s).lookup k := by
  induction l generalizing s with
  | nil => rfl
  | cons a l ih =>
      rw [List.foldl_cons, ih (fun s b hb => hwrite s b (List.mem_cons_of_mem a hb))
        (fun s b hb => hskip s b (List.mem_cons_of_mem a hb))
        (fun b hb => hk b (List.mem_cons_of_mem a hb))]
      cases ha : writes a with
      | false => rw [hskip s a List.mem_cons_self ha]
      | true =>
          obtain ⟨b, -, hb⟩ := hwrite s a List.mem_cons_self ha
          have hne : k ≠ key a := by
            rintro rfl
            rw [hk a List.mem_cons_self rfl] at ha
            cases ha
          rw [hb, lookup_insert_eq_ite, if_neg hne]

/-- Where an element writes, the last write is found. -/
theorem exists_lookup_foldl_of_written
    (hwrite : ∀ s, ∀ a ∈ l, writes a = true → ∃ b, P a b ∧
      tableOf (step s a) = (tableOf s).insert (key a) b)
    (hskip : ∀ s, ∀ a ∈ l, writes a = false → tableOf (step s a) = tableOf s) (s : σ) {k : κ}
    (h : ∃ a ∈ l, key a = k ∧ writes a = true) :
    ∃ a ∈ l, key a = k ∧ ∃ b, (tableOf (l.foldl step s)).lookup k = some b ∧ P a b := by
  induction l generalizing s with
  | nil =>
      obtain ⟨a, ha, -⟩ := h
      cases ha
  | cons first l ih =>
      have hwrite' := fun s b (hb : b ∈ l) => hwrite s b (List.mem_cons_of_mem first hb)
      have hskip' := fun s b (hb : b ∈ l) => hskip s b (List.mem_cons_of_mem first hb)
      rw [List.foldl_cons]
      by_cases hlater : ∃ a ∈ l, key a = k ∧ writes a = true
      · obtain ⟨a, ha, hk, hb⟩ := ih hwrite' hskip' (step s first) hlater
        exact ⟨a, List.mem_cons_of_mem first ha, hk, hb⟩
      · have hlast : ∀ a ∈ l, key a = k → writes a = false := by
          intro a ha hk
          exact Bool.eq_false_iff.mpr fun hw => hlater ⟨a, ha, hk, hw⟩
        rw [lookup_foldl_of_not_written tableOf key writes hwrite' hskip' hlast]
        obtain ⟨a, ha, hk, hw⟩ := h
        rcases List.mem_cons.mp ha with rfl | hmem
        · obtain ⟨b, hP, hb⟩ := hwrite s a List.mem_cons_self hw
          refine ⟨a, List.mem_cons_self, hk, b, ?_, hP⟩
          rw [hb, lookup_insert_eq_ite, if_pos hk.symm]
        · exact absurd ⟨a, hmem, hk, hw⟩ hlater

end Folds

section Families

variable {σ : Type} {key : α → κ} {f : α → σ → σ} {l : List α}

theorem foldl_update_of_notMem (t : κ → σ) {k : κ} (hk : k ∉ l.map key) :
    l.foldl (fun t a => Function.update t (key a) (f a (t (key a)))) t k = t k := by
  induction l generalizing t with
  | nil => rfl
  | cons a l ih =>
      rw [List.map_cons, List.mem_cons, not_or] at hk
      obtain ⟨hne, hrest⟩ := hk
      rw [List.foldl_cons, ih _ hrest, Function.update_of_ne hne]

/-- In a family of states of which each element of a list changes its own, none is changed twice. -/
theorem foldl_update_of_mem (hnodup : (l.map key).Nodup) (t : κ → σ) {a : α} (ha : a ∈ l) :
    l.foldl (fun t a => Function.update t (key a) (f a (t (key a)))) t (key a) = f a (t (key a)) := by
  induction l generalizing t with
  | nil => cases ha
  | cons first l ih =>
      obtain ⟨hnew, hrest⟩ := List.nodup_cons.mp hnodup
      rw [List.foldl_cons]
      rcases List.mem_cons.mp ha with rfl | hmem
      · rw [foldl_update_of_notMem _ hnew, Function.update_self]
      · have hne : key a ≠ key first := by
          intro heq
          rw [← heq] at hnew
          exact hnew (List.mem_map_of_mem hmem)
        rw [ih hrest _ hmem, Function.update_of_ne hne]

end Families

end Table

end DiskArcana.Lib
