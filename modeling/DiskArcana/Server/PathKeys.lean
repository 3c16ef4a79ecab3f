import DiskArcana.Lib.OsPath
import DiskArcana.Server.MetaDb

/-!
# The keys that paths are stored under

A path that the scanner finds is a string of bytes. `files` stores it as text with the backslashes
turned into slashes (`files.rs`, `path_as_str`), `node_baselines` as the text itself, and both
refuse what is not UTF-8; rows are read back with `PathBuf::from`. The tables are those of one
tenant and vault, and of one node.

The keys are good for paths that are UTF-8 and have no backslash, and for no others
(`faithfulKeys_iff`).
-/

namespace DiskArcana.Server.PathKeys

open DiskArcana.Core DiskArcana.Lib DiskArcana.Lib.OsPath

/-- Source: `error.rs`, `MetaDbError` -/
inductive MetaDbError where
  | invalid (message : String)
  deriving DecidableEq

/-! ## `files` -/

/-- Source: `files.rs`, `path_as_str` -/
def pathAsStr (path : List UInt8) : Except MetaDbError (List Char) :=
  match toStr path with
  | some s => .ok (s.map fun c => if c = '\\' then '/' else c)
  | none => .error (.invalid "path contains non-UTF-8 bytes")

/-- The rows of `files` by the stored path. -/
abbrev FileRows := Table (List Char) FileRow

/-- The path of the file is `path`; `m` has its other fields.
Source: `files.rs`, `upsert_file_scoped` -/
def upsertFileScoped (files : FileRows) (path : List UInt8) (m : FileMeta) :
    Except MetaDbError FileRows := do
  let pathStr ← pathAsStr path
  return files.insert pathStr (MetaDb.upsertRow (files.lookup pathStr) m)

/-- Source: `files.rs`, `list_files_scoped` and the path of `row_to_meta` -/
def listFilesScoped (files : FileRows) : List (List UInt8 × FileRow) :=
  (files.entries.mergeSort fun a b => a.1 ≤ b.1).map fun e => (utf8 e.1, e.2)

/-! ## `node_baselines` -/

/-- The text that a baseline is stored under. -/
def baselineKey (path : List UInt8) : Except MetaDbError (List Char) :=
  match toStr path with
  | some s => .ok s
  | none => .error (.invalid "path contains non-UTF-8 bytes")

/-- The rows of `node_baselines` by the stored path. -/
abbrev BaselineRows := Table (List Char) BaselineRow

/-- Source: `node_baseline.rs`, `upsert_node_baselines_scoped` -/
def upsertNodeBaselinesScoped (baselines : BaselineRows) :
    List (List UInt8 × FileMeta) → Except MetaDbError BaselineRows
  | [] => .ok baselines
  | (path, m) :: rest => do
    let pathStr ← baselineKey path
    upsertNodeBaselinesScoped (baselines.insert pathStr (baselineRowOfMeta m)) rest

/-- Source: `node_baseline.rs`, `load_node_baseline_scoped` and the path of
`baseline_row_to_meta` -/
def loadNodeBaselineScoped (baselines : BaselineRows) : List (List UInt8 × BaselineRow) :=
  (baselines.entries.mergeSort fun a b => a.1 ≤ b.1).map fun e => (utf8 e.1, e.2)

/-! ## The wire -/

/-- The path of a file on the wire.
Source: `sync.rs`, `file_meta_to_proto` -/
def fileMetaToProtoPath (path : List UInt8) : List Char := toStringLossy path

/-- Source: `sync.rs`, `proto_to_file_meta` -/
def protoToFileMetaPath (path : List Char) : List UInt8 := utf8 path

/-- A path that is UTF-8 gets over the wire as it is. -/
theorem wire_of_toStr {path : List UInt8} {t : List Char} (h : toStr path = some t) :
    protoToFileMetaPath (fileMetaToProtoPath path) = path := by
  obtain rfl := toStr_eq_some_iff.mp h
  rw [fileMetaToProtoPath, toStringLossy_utf8, protoToFileMetaPath]

/-! ## Faithful keys -/

/-- A path has a row of its own in both tables, under one key, and is read back. -/
structure FaithfulKeys (p q : RelPath) : Prop where
  files_distinct : ∃ k k', pathAsStr p.toBytes = .ok k ∧ pathAsStr q.toBytes = .ok k' ∧ k ≠ k'
  baselines_distinct : ∃ k k', baselineKey p.toBytes = .ok k ∧ baselineKey q.toBytes = .ok k' ∧ k ≠ k'
  files_back : ∀ r, r = p ∨ r = q → ∀ files m, ∃ files' path row,
    upsertFileScoped files r.toBytes m = .ok files' ∧ (path, row) ∈ listFilesScoped files' ∧
      components path = r.names ∧ ∃ old, row = MetaDb.upsertRow old m
  baselines_back : ∀ r, r = p ∨ r = q → ∀ baselines m, ∃ baselines' path,
    upsertNodeBaselinesScoped baselines [(r.toBytes, m)] = .ok baselines' ∧
      (path, baselineRowOfMeta m) ∈ loadNodeBaselineScoped baselines' ∧ components path = r.names
  same_key : pathAsStr p.toBytes = baselineKey p.toBytes ∧ pathAsStr q.toBytes = baselineKey q.toBytes

/-- A path in UTF-8 without a backslash. -/
def Plain (p : RelPath) : Prop := ∃ t, toStr p.toBytes = some t ∧ '\\' ∉ t

variable {p q : RelPath}

theorem pathAsStr_of_toStr {path : List UInt8} {t : List Char} (h : toStr path = some t)
    (hplain : '\\' ∉ t) : pathAsStr path = .ok t := by
  simp only [pathAsStr, h, map_replace_of_notMem hplain]

theorem baselineKey_of_toStr {path : List UInt8} {t : List Char} (h : toStr path = some t) :
    baselineKey path = .ok t := by
  simp only [baselineKey, h]

/-- What is stored without an error under one key in both tables is plain. -/
theorem plain_of_same_key {k : List Char} (hkey : baselineKey p.toBytes = .ok k)
    (hsame : pathAsStr p.toBytes = baselineKey p.toBytes) : Plain p := by
  rcases ht : toStr p.toBytes with _ | t
  · simp [baselineKey, ht] at hkey
  · refine ⟨t, ht, ?_⟩
    intro hback
    simp only [pathAsStr, baselineKey, ht, Except.ok.injEq] at hsame
    rw [← hsame, List.mem_map] at hback
    obtain ⟨c, -, hc⟩ := hback
    split_ifs at hc with h
    · cases hc
    · exact h hc

theorem components_of_toStr {t : List Char} (h : toStr p.toBytes = some t) :
    components (utf8 t) = p.names := by
  rw [← toStr_eq_some_iff.mp h, p.components_toBytes]

theorem files_back_of_plain (h : Plain p) (files : FileRows) (m : FileMeta) : ∃ files' path row,
    upsertFileScoped files p.toBytes m = .ok files' ∧ (path, row) ∈ listFilesScoped files' ∧
      components path = p.names ∧ ∃ old, row = MetaDb.upsertRow old m := by
  obtain ⟨t, ht, hplain⟩ := h
  refine ⟨files.insert t (MetaDb.upsertRow (files.lookup t) m), utf8 t, _, ?_, ?_,
    components_of_toStr ht, files.lookup t, rfl⟩
  · rw [upsertFileScoped, pathAsStr_of_toStr ht hplain]
    rfl
  · refine List.mem_map.mpr ⟨⟨t, _⟩, ?_, rfl⟩
    rw [List.mem_mergeSort, Table.mem_entries_iff, AList.lookup_insert]
    rfl

theorem baselines_back_of_plain (h : Plain p) (baselines : BaselineRows) (m : FileMeta) :
    ∃ baselines' path, upsertNodeBaselinesScoped baselines [(p.toBytes, m)] = .ok baselines' ∧
      (path, baselineRowOfMeta m) ∈ loadNodeBaselineScoped baselines' ∧ components path = p.names := by
  obtain ⟨t, ht, -⟩ := h
  refine ⟨baselines.insert t (baselineRowOfMeta m), utf8 t, ?_, ?_, components_of_toStr ht⟩
  · rw [upsertNodeBaselinesScoped, baselineKey_of_toStr ht]
    rfl
  · refine List.mem_map.mpr ⟨⟨t, _⟩, ?_, rfl⟩
    rw [List.mem_mergeSort, Table.mem_entries_iff, AList.lookup_insert]
    rfl

/-- The keys of two paths are good exactly when both are UTF-8 without a backslash. -/
theorem faithfulKeys_iff (hne : p ≠ q) : FaithfulKeys p q ↔ Plain p ∧ Plain q := by
  constructor
  · intro h
    obtain ⟨k, k', hk, hk', -⟩ := h.baselines_distinct
    exact ⟨plain_of_same_key hk h.same_key.1, plain_of_same_key hk' h.same_key.2⟩
  · rintro ⟨hp, hq⟩
    obtain ⟨t, ht, hplain⟩ := hp
    obtain ⟨t', ht', hplain'⟩ := hq
    have hkeys : t ≠ t' := by
      rintro rfl
      apply hne
      apply RelPath.ext_of_toBytes
      rw [toStr_eq_some_iff.mp ht, toStr_eq_some_iff.mp ht']
    constructor
    · exact ⟨t, t', pathAsStr_of_toStr ht hplain, pathAsStr_of_toStr ht' hplain', hkeys⟩
    · exact ⟨t, t', baselineKey_of_toStr ht, baselineKey_of_toStr ht', hkeys⟩
    · rintro r (rfl | rfl) files m
      · exact files_back_of_plain ⟨t, ht, hplain⟩ files m
      · exact files_back_of_plain ⟨t', ht', hplain'⟩ files m
    · rintro r (rfl | rfl) baselines m
      · exact baselines_back_of_plain ⟨t, ht, hplain⟩ baselines m
      · exact baselines_back_of_plain ⟨t', ht', hplain'⟩ baselines m
    · rw [pathAsStr_of_toStr ht hplain, pathAsStr_of_toStr ht' hplain', baselineKey_of_toStr ht,
        baselineKey_of_toStr ht']
      exact ⟨rfl, rfl⟩

/-- The file `a\b`. -/
def backslashed : RelPath := ⟨[[0x61, 0x5C, 0x62]], by decide, by decide⟩

/-- The file `b` in the directory `a`. -/
def nested : RelPath := ⟨[[0x61], [0x62]], by decide, by decide⟩

/-- The file `c` beside them. -/
def single : RelPath := ⟨[[0x63]], by decide, by decide⟩

theorem faithfulKeys_nested_single : nested ≠ single ∧ (FaithfulKeys nested single ↔
    Plain nested ∧ Plain single) := by
  have hne : nested ≠ single := by
    intro h
    exact absurd (congrArg RelPath.names h) (by decide)
  exact ⟨hne, faithfulKeys_iff hne⟩

/-- `a\b` and `a/b` are two files to the scanner and one to `files`. -/
theorem not_faithfulKeys_backslashed : backslashed ≠ nested ∧
    Filter.default.isExcluded ["a\\b"] = false ∧ Filter.default.isExcluded ["a", "b"] = false ∧
    ¬ FaithfulKeys backslashed nested := by
  have hback : toStr backslashed.toBytes = some ['a', '\\', 'b'] := toStr_eq_some_iff.mpr (by decide)
  have hslash : toStr nested.toBytes = some ['a', '/', 'b'] := toStr_eq_some_iff.mpr (by decide)
  refine ⟨fun h => absurd (congrArg RelPath.names h) (by decide), by decide, by decide, ?_⟩
  intro h
  obtain ⟨k, k', hk, hk', hne⟩ := h.files_distinct
  apply hne
  simp only [pathAsStr, hback, hslash, Except.ok.injEq] at hk hk'
  rw [← hk, ← hk']
  decide

end DiskArcana.Server.PathKeys
