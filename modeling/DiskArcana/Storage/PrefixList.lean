import DiskArcana.Lib.SortedPage
import DiskArcana.Storage.BackendsAgree
import Mathlib

/-!
# Listing the keys with a prefix

`list` hands the prefix on to `LIKE`, followed by `%`. The pattern finds every key that begins with the
prefix (`like_of_prefix`), and others: `_` and `%` in the prefix stand for other characters, ASCII
letters for those of the other case, and what comes after a NUL is not looked at. Such a key takes a
place in the listing, unless the keys that begin with the prefix fill it before (`listsPrefix_iff`).
-/

namespace DiskArcana.Storage

open DiskArcana.Core DiskArcana.Lib

/-! ## What it should be -/

/-- The entry of an object. -/
def ObjectMetadata.entry (object : ObjectMetadata) : ListEntry :=
  ⟨object.path, object.size, object.contentSha256⟩

/-- The entries of all keys. -/
def storedEntries (rows : ObjectRows) : List ListEntry :=
  rows.entries.map fun e => (rowToMetadata e.1 e.2).entry

/-- A key begins with the prefix, if there is one. -/
def begins (pathPrefix : Option Text) (path : Text) : Bool := pathPrefix.all fun p => p.isPrefixOf path

/-- The entries of the keys that begin with the prefix, in key order. -/
def entriesWith (rows : ObjectRows) (pathPrefix : Option Text) : List ListEntry :=
  ((storedEntries rows).filter fun entry => begins pathPrefix entry.path).insertionSort
    fun a b => a.path ≤ b.path

/-- The listing is that of the first keys that begin with the prefix. -/
def ListsPrefix (b : LocalDiskBackend) (options : ListOptions) : Prop :=
  b.list options = .ok ((entriesWith b.rows options.pathPrefix).take (options.limit.getD 1000))

/-! ## Patterns -/

/-- The pattern of a prefix finds a key. -/
def found (pathPrefix : Option Text) (path : Text) : Bool :=
  pathPrefix.all fun p => like (cString (p ++ ['%'])) (cString path)

/-- A pattern goes on matching behind a text that begins both. -/
theorem like_append (p : Text) {pattern text : Text} (h : like pattern text = true) :
    like (p ++ pattern) (p ++ text) = true := by
  induction p with
  | nil => exact h
  | cons c p ih =>
      rw [List.cons_append, List.cons_append]
      by_cases hc : c = '%'
      · subst hc
        exact like_percent_iff.mpr ⟨p ++ text, List.suffix_cons _ _, ih⟩
      · rw [like_cons_of_ne hc, ih, eqNoCase_self, Bool.or_true, Bool.and_true]

theorem like_percent (text : Text) : like ['%'] text = true :=
  like_percent_iff.mpr ⟨[], List.nil_suffix, like_nil_iff.mpr rfl⟩

/-! ### Texts that end at a NUL -/

theorem cString_append_of_notMem {p : Text} (hp : '\x00' ∉ p) (text : Text) :
    cString (p ++ text) = p ++ cString text := by
  unfold cString
  rw [List.takeWhile_append_of_pos]
  intro c hc
  exact decide_eq_true fun hnul => hp (hnul ▸ hc)

theorem cString_append_of_mem {p : Text} (hp : '\x00' ∈ p) (text : Text) :
    cString (p ++ text) = cString p := by
  obtain ⟨p₁, p₂, rfl⟩ := List.append_of_mem hp
  unfold cString
  rw [List.append_assoc, List.cons_append, List.takeWhile_append, List.takeWhile_append]
  simp

/-- The pattern of a prefix finds every key that begins with it. -/
theorem like_of_prefix {p path : Text} (h : p <+: path) :
    like (cString (p ++ ['%'])) (cString path) = true := by
  obtain ⟨rest, rfl⟩ := h
  by_cases hp : '\x00' ∈ p
  · rw [cString_append_of_mem hp, cString_append_of_mem hp]
    have hself := like_append (cString p) (like_nil_iff.mpr rfl)
    rwa [List.append_nil] at hself
  · rw [cString_append_of_notMem hp, cString_append_of_notMem hp]
    exact like_append p (like_percent _)

theorem found_of_begins {pathPrefix : Option Text} {path : Text}
    (h : begins pathPrefix path = true) : found pathPrefix path = true := by
  cases pathPrefix with
  | none => rfl
  | some p => exact like_of_prefix (List.isPrefixOf_iff_prefix.mp h)

/-! ## When the listing is right -/

section

variable {b : LocalDiskBackend} {rows : ObjectRows} {options : ListOptions}

theorem nodup_paths (rows : ObjectRows) : ((storedEntries rows).map ListEntry.path).Nodup := by
  rw [storedEntries, List.map_map]
  exact rows.nodupKeys

theorem paths_storedEntries (rows : ObjectRows) :
    (storedEntries rows).map ListEntry.path = rows.keys := by
  rw [storedEntries, List.map_map]
  rfl

/-- The listing is sorted by key before keys are left out. -/
theorem listObjects_eq (rows : ObjectRows) (options : ListOptions) :
    listObjects rows options =
      (((storedEntries rows).insertionSort fun a b => a.path ≤ b.path).filter fun entry =>
        found options.pathPrefix entry.path).take (options.limit.getD 1000) := by
  have hentries : ∀ objects : List ObjectMetadata,
      ((objects.filter fun object => found options.pathPrefix object.path).insertionSort
        fun a b => a.path ≤ b.path).map ObjectMetadata.entry =
      ((objects.map ObjectMetadata.entry).filter fun entry =>
        found options.pathPrefix entry.path).insertionSort fun a b => a.path ≤ b.path := by
    intro objects
    rw [List.filter_map]
    exact List.map_insertionSort _ _ ObjectMetadata.entry _ fun _ _ _ _ => Iff.rfl
  have hstored : storedEntries rows =
      (rows.entries.map fun e => rowToMetadata e.1 e.2).map ObjectMetadata.entry := by
    rw [List.map_map]
    rfl
  rw [← SortedPage.insertionSort_filter (nodup_paths rows), listObjects, MetadataStore.listPrefix,
    List.map_take, hstored]
  exact congrArg (List.take _) (hentries _)

theorem listObjects_eq_take_iff (rows : ObjectRows) (options : ListOptions) :
    listObjects rows options = (entriesWith rows options.pathPrefix).take (options.limit.getD 1000) ↔
      ∀ path ∈ rows.keys, found options.pathPrefix path = true →
        begins options.pathPrefix path = false → options.limit.getD 1000 ≤
          rows.keys.countP fun other => begins options.pathPrefix other && decide (other < path) := by
  have hsorted := SortedPage.pairwise_lt_insertionSort (nodup_paths rows)
  rw [listObjects_eq, entriesWith, SortedPage.insertionSort_filter (nodup_paths rows),
    SortedPage.take_filter_sorted_iff hsorted fun _ _ h => found_of_begins h,
    ← paths_storedEntries, List.forall_mem_map]
  have hperm := List.perm_insertionSort (fun a b : ListEntry => a.path ≤ b.path) (storedEntries rows)
  simp only [hperm.mem_iff, hperm.countP_eq, List.countP_map, Function.comp_def]
  congr!

/-- **Prefix listing.** A listing is that of the first keys that begin with the prefix if and only if
SQLite takes the pattern and every other key that the pattern finds has as many keys that begin with the
prefix before it as are asked for. -/
theorem listsPrefix_iff (b : LocalDiskBackend) (options : ListOptions) :
    ListsPrefix b options ↔ patternRefused b.rows options = false ∧
      ∀ path ∈ b.rows.keys, found options.pathPrefix path = true →
        begins options.pathPrefix path = false → options.limit.getD 1000 ≤
          b.rows.keys.countP fun other => begins options.pathPrefix other && decide (other < path) := by
  rw [← listObjects_eq_take_iff, ListsPrefix, LocalDiskBackend.list, tryListObjects]
  cases patternRefused b.rows options <;> simp

/-- Two keys that differ where the prefix has a `_`. -/
def keyDash : StorageObjectKey := ⟨['a', '-', 'b'], by decide, by decide, by decide⟩

def keyUnderscore : StorageObjectKey := ⟨['a', '_', 'b'], by decide, by decide, by decide⟩

/-- The two keys, stored one after the other. -/
def storedTwo : LocalDiskBackend :=
  let b := (LocalDiskBackend.new.put sampleSha256 keyUnderscore [65] ⟨none, ∅⟩ 1).1
  (b.put sampleSha256 keyDash [65] ⟨none, ∅⟩ 2).1

/-- The key with `-` comes first and takes the place of the one with `_`. -/
theorem not_listsPrefix_storedTwo : ¬ ListsPrefix storedTwo ⟨some ['a', '_'], some 1⟩ := by
  unfold ListsPrefix
  decide +kernel

/-! ## Prefixes that are patterns of themselves -/

/-- No character stands for another in a pattern, or ends it. -/
def Plain (p : Text) : Prop := ∀ c ∈ p, c ≠ '%' ∧ c ≠ '_' ∧ c ≠ '\x00' ∧ c.isAlpha = false

end

end DiskArcana.Storage
