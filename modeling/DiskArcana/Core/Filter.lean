import DiskArcana.Core.Types

/-!
# Which paths take part in sync

Three predicates on paths, each decided by other code in the source:

* `isSyncEphemeralMarker`: local-only sentinels, dropped by the scanner and by the exchange;
* `Filter.isExcluded`: what the client's scanner leaves out;
* `pathMatchesIncludes`: what a node with a selective-sync list is served.

The compiled glob set of a filter is third-party code and stays a field; the default rules have no
globs, so their field is constantly `false`.
-/

namespace DiskArcana.Core

/-! ## Path components -/

/-- `Component::Normal`: neither the root, nor `.`, nor `..`. -/
def isNormal (segment : String) : Bool := segment != "/" && segment != "." && segment != ".."

/-- The last component when it is a normal one.
Source: `std::path::Path::file_name` -/
def fileName (path : Path) : Option String := path.getLast?.filter isNormal

/-- The path as the string it is sent and stored as.
Source: `Path::to_string_lossy` -/
def pathString (path : Path) : String := "/".intercalate path

/-- `str::eq_ignore_ascii_case`. -/
def eqIgnoreAsciiCase (s t : String) : Bool :=
  s.toList.map Char.toLower == t.toList.map Char.toLower

/-- What follows the last dot of a file name, if a non-empty stem precedes it.
Source: `std::path::Path::extension` -/
def pathExtension (path : Path) : Option String := do
  let name ← fileName path
  let after := name.toList.reverse.takeWhile (· != '.')
  let before := name.toList.reverse.drop (after.length + 1)
  if after.length = name.toList.length ∨ before = [] then none
  else some (String.ofList after.reverse)

/-! ## The filter -/

/-- Segments that are always excluded.
Source: `filter.rs`, `HARDCODED_DENY_SEGMENTS` -/
def hardcodedDenySegments : List String := [".git", ".disk-archive", ".dreamer"]

/-- Basenames of local-only sync sentinels.
Source: `filter.rs`, `SYNC_EPHEMERAL_MARKER_BASENAMES` -/
def syncEphemeralMarkerBasenames : List String := [".kb-last-push"]

/-- The path is a local sync sentinel, never replicated.
Source: `filter.rs`, `is_sync_ephemeral_marker` -/
def isSyncEphemeralMarker (relPath : Path) : Bool :=
  (fileName relPath).any fun name =>
    syncEphemeralMarkerBasenames.any fun marker => eqIgnoreAsciiCase name marker

/-- The path lives under `.disk-embeddings`.
Source: `embeddings/paths.rs`, `is_co_storage_path` -/
def isCoStoragePath (rel : Path) : Bool :=
  rel.head?.any fun seg => isNormal seg && eqIgnoreAsciiCase seg ".disk-embeddings"

/-- User-tunable filter rules.
Source: `filter.rs`, `FilterRules` -/
structure FilterRules where
  extensionsWhitelist : List String
  denySegments : List String
  ignoreGlobs : List String

/-- The default rules: nothing beyond the hardcoded list.
Source: `filter.rs`, `FilterRules` (derived `Default`) -/
def FilterRules.default : FilterRules := ⟨[], [], []⟩

/-- A compiled filter; `ignore` is `GlobSet::is_match`.
Source: `filter.rs`, `Filter` -/
structure Filter where
  extensionsWhitelist : List String
  denySegments : List String
  ignore : Path → Bool

/-- `str::trim_start_matches('.')` and `to_ascii_lowercase`. -/
def normalizeExtension (s : String) : String :=
  String.ofList ((s.toList.dropWhile (· == '.')).map Char.toLower)

/-- Compile rules. `compileGlobs` stands for the glob compiler, which may reject a pattern.
Source: `filter.rs`, `Filter::from_config` -/
def Filter.fromConfig {ε : Type} (compileGlobs : List String → Except ε (Path → Bool))
    (cfg : FilterRules) : Except ε Filter := do
  let ignore ← compileGlobs cfg.ignoreGlobs
  return {
    extensionsWhitelist := cfg.extensionsWhitelist.map normalizeExtension
    denySegments := cfg.denySegments
    ignore := ignore }

/-- The filter of the default rules: an empty glob set matches nothing. -/
def Filter.default : Filter := ⟨[], [], fun _ => false⟩

/-- The path must be skipped by the scanner.
Source: `filter.rs`, `Filter::is_excluded` -/
def Filter.isExcluded (f : Filter) (relPath : Path) : Bool :=
  isSyncEphemeralMarker relPath ||
  (relPath.any fun segment => isNormal segment &&
    ((hardcodedDenySegments.any fun s => eqIgnoreAsciiCase segment s) ||
      f.denySegments.any fun s => eqIgnoreAsciiCase segment s)) ||
  (!f.extensionsWhitelist.isEmpty && !isCoStoragePath relPath &&
    !(pathExtension relPath).any fun e =>
      f.extensionsWhitelist.contains (String.ofList (e.toList.map Char.toLower))) ||
  f.ignore relPath

/-- Every filter excludes the ephemeral markers. -/
theorem Filter.isExcluded_of_ephemeral (f : Filter) {path : Path}
    (h : isSyncEphemeralMarker path = true) : f.isExcluded path = true := by
  simp [Filter.isExcluded, h]

/-- Every filter excludes the hardcoded segments, in any letter case. -/
theorem Filter.isExcluded_of_segment (f : Filter) {path : Path} {segment deny : String}
    (hmem : segment ∈ path) (hn : isNormal segment = true) (hdeny : deny ∈ hardcodedDenySegments)
    (heq : eqIgnoreAsciiCase segment deny = true) : f.isExcluded path = true := by
  have hseg : (path.any fun segment => isNormal segment &&
      ((hardcodedDenySegments.any fun s => eqIgnoreAsciiCase segment s) ||
        f.denySegments.any fun s => eqIgnoreAsciiCase segment s)) = true := by
    rw [List.any_eq_true]
    refine ⟨segment, hmem, ?_⟩
    rw [hn, Bool.true_and, Bool.or_eq_true]
    exact Or.inl (List.any_eq_true.mpr ⟨deny, hdeny, heq⟩)
  simp [Filter.isExcluded, hseg]

/-! ## Selective sync -/

/-- The characters `str::trim` removes (Unicode `White_Space`). -/
def isTrimmed (c : Char) : Bool :=
  let n := c.toNat
  (9 ≤ n && n ≤ 13) || n == 0x20 || n == 0x85 || n == 0xA0 || n == 0x1680 ||
    (0x2000 ≤ n && n ≤ 0x200A) || n == 0x2028 || n == 0x2029 || n == 0x202F || n == 0x205F ||
    n == 0x3000

/-- Drop the characters that satisfy `p` from both ends. -/
def trimChars (p : Char → Bool) (cs : List Char) : List Char :=
  ((cs.dropWhile p).reverse.dropWhile p).reverse

/-- A path is served to a node with the given include list; the empty list restricts nothing.
Source: `selective_sync.rs`, `path_matches_includes` -/
def pathMatchesIncludes (relPath : String) (includes : List String) : Bool :=
  if includes.isEmpty then true
  else
    let path := trimChars (· == '/')
      ((trimChars isTrimmed relPath.toList).map fun c => if c = '\\' then '/' else c)
    if path.isEmpty then false
    else includes.any fun pre =>
      path == pre.toList || (pre.toList ++ ['/']).isPrefixOf path || pre.toList.isEmpty

@[simp] theorem pathMatchesIncludes_nil (relPath : String) :
    pathMatchesIncludes relPath [] = true := rfl

end DiskArcana.Core
