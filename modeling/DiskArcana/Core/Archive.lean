import DiskArcana.Core.Types
import DiskArcana.Lib.FileTable
import DiskArcana.Lib.OsPath

/-!
# Folder archives

`disk-core/src/archive.rs`. `create` walks a directory and stores each file compressed under its
digest, with an index of paths, sizes and digests; `restore` reads the index and writes the files.
Paths are strings of bytes on the disk and text in the index. What the file system is asked for
succeeds wherever it can; compression, digests and the format of the index are parameters.

The index holds no path that the index itself or another archive could stand at: a file `index.json`
at the top and whatever is below a `.disk-archive` is passed over (`Skipped`). The rest comes back
as it was (`restore_create`).
-/

namespace DiskArcana.Core.Archive

open DiskArcana.Lib DiskArcana.Lib.OsPath

abbrev Text := List Char

/-- Source: `archive.rs`, `ArchiveEntry` -/
structure ArchiveEntry where
  path : Text
  size : ℕ
  digest : Text
  deriving DecidableEq

/-- Source: `archive.rs`, `ArchiveIndex` -/
structure ArchiveIndex where
  version : ℕ
  entries : List ArchiveEntry
  deriving DecidableEq

/-- What the archives use of other libraries: `blake3::hash` in hexadecimal, `zstd::stream` and
`serde_json`. -/
structure Codecs where
  digest : Bytes → Text
  encodeAll : Bytes → Bytes
  decodeAll : Bytes → Option Bytes
  toVecPretty : ArchiveIndex → Bytes
  fromSlice : Bytes → Option ArchiveIndex

/-- The kinds of errors that are returned. -/
inductive ErrorKind where
  | invalidData
  | other
  deriving DecidableEq

/-- The directory of an archive: the index and the files in `entries` by the stem of their name. -/
structure ArchiveDir where
  index : Option Bytes
  entries : Table Text Bytes

/-- A directory tree of regular files, in the order of a walk. -/
structure SourceTree where
  files : List (RelPath × Bytes)
  apart : files.Pairwise fun f g => FileTable.Apart f.1.names g.1.names

/-- Source: `archive.rs`, `INDEX` -/
def indexName : Text := "index.json".toList

variable (codecs : Codecs)

/-! ## `create` -/

/-- The path of a file in the index. -/
def relOf (path : RelPath) : Text :=
  (toStringLossy path.toBytes).map fun c => if c = '\\' then '/' else c

/-- The paths that the walk passes over. -/
def isSkipped (rel : Text) : Bool :=
  rel == indexName || (splitAt '/' rel).any (· == ".disk-archive".toList)

def entryOf (f : RelPath × Bytes) : ArchiveEntry := ⟨relOf f.1, f.2.length, codecs.digest f.2⟩

/-- The files that the walk takes. -/
def taken (source : SourceTree) : List (RelPath × Bytes) :=
  source.files.filter fun f => !isSkipped (relOf f.1)

/-- Source: `archive.rs`, `create` -/
def create (source : SourceTree) (archive : ArchiveDir) : ArchiveIndex × ArchiveDir :=
  let slots := Table.insertAll (fun f => codecs.digest f.2) (fun f => codecs.encodeAll f.2)
    archive.entries (taken source)
  let entries := ((taken source).map (entryOf codecs)).insertionSort fun a b => a.path ≤ b.path
  let index : ArchiveIndex := ⟨1, entries⟩
  (index, ⟨some (codecs.toVecPretty index), slots⟩)

/-! ## `restore` -/

/-- Source: `archive.rs`, `read_index` -/
def readIndex (archive : ArchiveDir) : Except ErrorKind ArchiveIndex :=
  match archive.index with
  | none => .error .other
  | some bytes =>
    match codecs.fromSlice bytes with
    | some index => .ok index
    | none => .error .other

/-- Where a relative path ends, if it ends in a name. -/
def targetOf (relative : List UInt8) : Option (List (List UInt8)) :=
  match (splitAt slash relative).getLast? with
  | some [] => none
  | some last => if last = [dot] then none else some ((components relative).filter (· ≠ [dot]))
  | none => none

abbrev Destination := FileTable (List UInt8) Bytes

/-- The loop over the entries of the index. -/
def restoreEntries (archive : ArchiveDir) (destination : Destination) :
    List ArchiveEntry → Except ErrorKind Unit × Destination
  | [] => (.ok (), destination)
  | entry :: rest =>
    let relative := utf8 entry.path
    if relative.head? = some slash ∨ [dot, dot] ∈ components relative then
      (.error .invalidData, destination)
    else
      match archive.entries.lookup entry.digest with
      | none => (.error .other, destination)
      | some compressed =>
        match codecs.decodeAll compressed with
        | none => (.error .other, destination)
        | some data =>
          if data.length ≠ entry.size ∨ codecs.digest data ≠ entry.digest then
            (.error .invalidData, destination)
          else
            match targetOf relative with
            | none => (.error .other, destination)
            | some target =>
              match destination.createDirAll target.dropLast with
              | none => (.error .other, destination)
              | some d =>
                match FileTable.write d target data with
                | none => (.error .other, d)
                | some d => restoreEntries archive d rest

/-- Source: `archive.rs`, `restore` -/
def restore (archive : ArchiveDir) (destination : Destination) :
    Except ErrorKind ArchiveIndex × Destination :=
  match readIndex codecs archive with
  | .error e => (.error e, destination)
  | .ok index =>
    match destination.createDirAll [] with
    | none => (.error .other, destination)
    | some d =>
      match restoreEntries codecs archive d index.entries with
      | (.error e, d) => (.error e, d)
      | (.ok (), d) => (.ok index, d)

/-! ## Plain paths -/

/-- A path in UTF-8 without a backslash. -/
def Plain (path : RelPath) : Prop := ∃ t, toStr path.toBytes = some t ∧ '\\' ∉ t

/-- A file `index.json` at the top, or a path through a `.disk-archive`. -/
def Skipped (path : RelPath) : Prop :=
  path.names = [utf8 indexName] ∨ utf8 ".disk-archive".toList ∈ path.names

variable {codecs} {path : RelPath} {t : Text}

theorem relOf_of_toStr (h : toStr path.toBytes = some t) (hplain : '\\' ∉ t) : relOf path = t := by
  rw [relOf, toStr_eq_some_iff.mp h, toStringLossy_utf8, map_replace_of_notMem hplain]

theorem utf8_relOf (h : Plain path) : utf8 (relOf path) = path.toBytes := by
  obtain ⟨t, ht, hplain⟩ := h
  rw [relOf_of_toStr ht hplain, toStr_eq_some_iff.mp ht]

theorem map_utf8_splitAt_relOf (h : Plain path) : (splitAt '/' (relOf path)).map utf8 = path.names := by
  rw [← splitAt_utf8, utf8_relOf h, path.splitAt_toBytes]

theorem isSkipped_iff (h : Plain path) : isSkipped (relOf path) = true ↔ Skipped path := by
  have hnames := map_utf8_splitAt_relOf h
  simp only [isSkipped, Bool.or_eq_true, beq_iff_eq, List.any_eq_true, Skipped]
  constructor
  · rintro (hindex | ⟨part, hmem, rfl⟩)
    · left
      rw [← hnames, hindex]
      rfl
    · right
      rw [← hnames]
      exact List.mem_map_of_mem hmem
  · rintro (hindex | hmem)
    · left
      apply utf8_injective
      rw [utf8_relOf h, RelPath.toBytes, hindex]
      rfl
    · right
      rw [← hnames, List.mem_map] at hmem
      obtain ⟨part, hpart, heq⟩ := hmem
      exact ⟨part, hpart, utf8_injective heq⟩

/-- The target of an entry for a plain path is where the file was. -/
theorem targetOf_toBytes (path : RelPath) : targetOf path.toBytes = some path.names := by
  have hlast : path.names.getLast? = some (path.names.getLast path.ne_nil) :=
    List.getLast?_eq_some_getLast path.ne_nil
  have hname := path.isName _ (List.getLast_mem path.ne_nil)
  have hdots : path.names.filter (· ≠ [dot]) = path.names := by
    rw [List.filter_eq_self]
    intro name hmem
    simpa using (path.isName name hmem).2.2.2.1
  unfold targetOf
  rw [path.splitAt_toBytes, path.components_toBytes, hlast, hdots]
  rcases hbytes : path.names.getLast path.ne_nil with _ | ⟨b, bs⟩
  · exact absurd hbytes hname.1
  · rw [hbytes] at hname
    simp only [hname.2.2.2.1, if_false]

theorem safe_toBytes (path : RelPath) :
    ¬ (path.toBytes.head? = some slash ∨ [dot, dot] ∈ components path.toBytes) := by
  rw [path.components_toBytes]
  rintro (hhead | hdots)
  · exact path.head?_toBytes hhead
  · exact (path.isName _ hdots).2.2.2.2 rfl

/-! ## The round trip -/

variable {source : SourceTree} {archive : ArchiveDir} {destination : Destination}

/-- What restoring a list of taken files needs: their data are in the archive, under their
digests. -/
def Stored (codecs : Codecs) (archive : ArchiveDir) (f : RelPath × Bytes) : Prop :=
  ∃ compressed, archive.entries.lookup (codecs.digest f.2) = some compressed ∧
    codecs.decodeAll compressed = some f.2

/-- Files that are apart and stored are restored beside those that are there. -/
theorem restoreEntries_of_stored {files : List (RelPath × Bytes)}
    {done : List (List (List UInt8) × Bytes)}
    (hholds : destination.Holds done) (hplain : ∀ f ∈ files, Plain f.1)
    (hstored : ∀ f ∈ files, Stored codecs archive f)
    (hdone : ∀ f ∈ files, ∀ g ∈ done, FileTable.Apart f.1.names g.1)
    (hapart : files.Pairwise fun f g => FileTable.Apart f.1.names g.1.names) :
    ∃ d, restoreEntries codecs archive destination (files.map (entryOf codecs)) = (.ok (), d) ∧
      d.Holds (files.reverse.map (fun f => (f.1.names, f.2)) ++ done) := by
  induction files generalizing destination done with
  | nil => exact ⟨destination, rfl, hholds⟩
  | cons f files ih =>
      obtain ⟨compressed, hslot, hdecode⟩ := hstored f List.mem_cons_self
      obtain ⟨hf, hfiles⟩ := List.pairwise_cons.mp hapart
      obtain ⟨d₁, d₂, hdirs, hwrite, hholds₂⟩ :=
        hholds.write f.1.ne_nil (hdone f List.mem_cons_self) f.2
      have hdone₂ : ∀ g ∈ files, ∀ h ∈ (f.1.names, f.2) :: done, FileTable.Apart g.1.names h.1 := by
        intro g hg h hh
        rcases List.mem_cons.mp hh with rfl | hh
        · exact (hf g hg).symm
        · exact hdone g (List.mem_cons_of_mem _ hg) h hh
      obtain ⟨d, hrest, hd⟩ := ih hholds₂ (fun g hg => hplain g (List.mem_cons_of_mem _ hg))
        (fun g hg => hstored g (List.mem_cons_of_mem _ hg)) hdone₂ hfiles
      refine ⟨d, ?_, ?_⟩
      · simp only [List.map_cons, restoreEntries, entryOf, utf8_relOf (hplain f List.mem_cons_self),
          safe_toBytes, if_false, hslot, hdecode, ne_eq, not_true_eq_false, or_self,
          targetOf_toBytes, hdirs, hwrite]
        exact hrest
      · simpa using hd

/-- What the archive holds of the files that were taken. -/
theorem stored_create (hzstd : ∀ f ∈ source.files, codecs.decodeAll (codecs.encodeAll f.2) = some f.2)
    (hdigest : ∀ f ∈ source.files, ∀ g ∈ source.files,
      codecs.digest f.2 = codecs.digest g.2 → f.2 = g.2)
    {f : RelPath × Bytes} (hf : f ∈ taken source) :
    Stored codecs (create codecs source archive).2 f := by
  have hmem : ∀ g ∈ taken source, g ∈ source.files := fun g hg => (List.mem_filter.mp hg).1
  have hfound :
      ((taken source).reverse.find? fun g => decide (codecs.digest g.2 = codecs.digest f.2)).isSome :=
    List.find?_isSome.mpr ⟨f, List.mem_reverse.mpr hf, by simp⟩
  obtain ⟨g, hg⟩ := Option.isSome_iff_exists.mp hfound
  have hgmem := hmem g (List.mem_reverse.mp (List.mem_of_find?_eq_some hg))
  have hsame : g.2 = f.2 := hdigest g hgmem f (hmem f hf) (by simpa using List.find?_some hg)
  refine ⟨codecs.encodeAll f.2, ?_, hzstd f (hmem f hf)⟩
  simp only [create, Table.lookup_insertAll, hg, Option.map_some, Option.some_or, hsame]

/-- The files of a restored archive are the files of the tree. -/
def RoundTrip (codecs : Codecs) (source : SourceTree) (archive : ArchiveDir)
    (keep : RelPath → Prop) : Prop :=
  ∃ d, restore codecs (create codecs source archive).2 ∅ = (.ok (create codecs source archive).1, d) ∧
    ∀ path content, d.file path = some content ↔
      ∃ f ∈ source.files, keep f.1 ∧ f.1.names = path ∧ f.2 = content

/-- **What is restored from an archive are the files it was made from**, but those that were
skipped. -/
theorem restore_create (source : SourceTree) (archive : ArchiveDir)
    (hplain : ∀ f ∈ source.files, Plain f.1)
    (hzstd : ∀ f ∈ source.files, codecs.decodeAll (codecs.encodeAll f.2) = some f.2)
    (hdigest : ∀ f ∈ source.files, ∀ g ∈ source.files,
      codecs.digest f.2 = codecs.digest g.2 → f.2 = g.2)
    (hjson : codecs.fromSlice (codecs.toVecPretty (create codecs source archive).1) =
      some (create codecs source archive).1) :
    RoundTrip codecs source archive fun path => ¬ Skipped path := by
  have hmem : ∀ f ∈ taken source, f ∈ source.files := fun f hf => (List.mem_filter.mp hf).1
  -- the index has the entries of the files in the order of their paths
  let files :=
    (taken source).insertionSort fun f g => (entryOf codecs f).path ≤ (entryOf codecs g).path
  have hperm : files.Perm (taken source) := List.perm_insertionSort _ _
  have hentries : (create codecs source archive).1.entries = files.map (entryOf codecs) :=
    (List.map_insertionSort
      (fun f g : RelPath × Bytes => (entryOf codecs f).path ≤ (entryOf codecs g).path)
      (fun a b : ArchiveEntry => a.path ≤ b.path) (entryOf codecs) (taken source)
      fun _ _ _ _ => Iff.rfl).symm
  have hfiles : ∀ f ∈ files, f ∈ taken source := fun f hf => hperm.mem_iff.mp hf
  have hapart : files.Pairwise fun f g => FileTable.Apart f.1.names g.1.names :=
    (hperm.pairwise_iff fun h => h.symm).mpr (source.apart.sublist List.filter_sublist)
  obtain ⟨root, hroot, hholds⟩ := FileTable.createDirAll_nil (List UInt8) Bytes
  have hstored : ∀ f ∈ files, Stored codecs (create codecs source archive).2 f :=
    fun f hf => stored_create hzstd hdigest (hfiles f hf)
  obtain ⟨d, hrestore, hd⟩ := restoreEntries_of_stored hholds
    (fun f hf => hplain f (hmem f (hfiles f hf))) hstored (by simp) hapart
  refine ⟨d, ?_, ?_⟩
  · have hread : readIndex codecs (create codecs source archive).2 =
        .ok (create codecs source archive).1 := by
      simp only [readIndex, create] at hjson ⊢
      rw [hjson]
    simp only [restore, hread, hroot, hentries, hrestore]
  · intro path content
    rw [FileTable.file_eq_some_iff, hd.file_iff, List.append_nil, List.mem_map]
    constructor
    · rintro ⟨f, hf, heq⟩
      obtain ⟨rfl, rfl⟩ := Prod.mk.inj heq
      have htaken := hfiles f (List.mem_reverse.mp hf)
      obtain ⟨hf, hkept⟩ := List.mem_filter.mp htaken
      refine ⟨f, hf, ?_, rfl, rfl⟩
      show ¬ Skipped f.1
      rw [← isSkipped_iff (hplain f hf)]
      simpa using hkept
    · rintro ⟨f, hf, hkept, rfl, rfl⟩
      refine ⟨f, List.mem_reverse.mpr (hperm.mem_iff.mpr (List.mem_filter.mpr ⟨hf, ?_⟩)), rfl⟩
      rw [← isSkipped_iff (hplain f hf)] at hkept
      simpa using hkept

/-! ## Archives of one letter -/

/-- An entry as `serde_json` prints it, where there is no character to escape. -/
def printEntry (e : ArchiveEntry) : Text :=
  "\n    \x7b\n      \"path\": \"".toList ++ e.path ++ "\",\n      \"size\": ".toList ++
    Nat.toDigits 10 e.size ++ ",\n      \"digest\": \"".toList ++ e.digest ++ "\"\n    \x7d".toList

def printIndex (index : ArchiveIndex) : Bytes :=
  utf8 <| "\x7b\n  \"version\": ".toList ++ Nat.toDigits 10 index.version ++ ",\n  \"entries\": [".toList ++
    [','].intercalate (index.entries.map printEntry) ++
    (if index.entries = [] then "]\n\x7d".toList else "\n  ]\n\x7d".toList)

/-- The digest of the letter `a`. -/
def letterDigest : Text := "17762fddd969a453925d65717ac3eea21320b66b54342fde15128d6caf21215f".toList

def letterIndex (path : Text) : ArchiveIndex := ⟨1, [⟨path, 1, letterDigest⟩]⟩

/-- What the libraries make of the file `a`, and of an index of it or of nothing. -/
def letterCodecs : Codecs where
  digest _ := letterDigest
  encodeAll _ := [0x28, 0xB5, 0x2F, 0xFD, 0x00, 0x58, 0x09, 0x00, 0x00, 0x61]
  decodeAll _ := some [0x61]
  toVecPretty := printIndex
  fromSlice bytes := [⟨1, []⟩, letterIndex "n/a".toList].find? fun index => printIndex index = bytes

def letterPath : RelPath := ⟨[[0x6E], [0x61]], by decide, by decide⟩

def indexPath : RelPath := ⟨[utf8 indexName], by decide, by decide⟩

/-- The letter in `n/a`. -/
def letterTree : SourceTree := ⟨[(letterPath, [0x61])], by simp⟩

/-- The letter in `index.json`. -/
def indexTree : SourceTree := ⟨[(indexPath, [0x61])], by simp⟩

def noArchive : ArchiveDir := ⟨none, ∅⟩

theorem toStr_letterPath : toStr letterPath.toBytes = some "n/a".toList :=
  toStr_eq_some_iff.mpr (by decide)

theorem roundTrip_letterTree :
    RoundTrip letterCodecs letterTree noArchive fun path => ¬ Skipped path := by
  have hrel : relOf letterPath = "n/a".toList := relOf_of_toStr toStr_letterPath (by decide)
  have hkept : isSkipped (relOf letterPath) = false := by
    rw [hrel]
    decide
  have htaken : taken letterTree = [(letterPath, [0x61])] := by
    simp [taken, letterTree, hkept]
  have hindex : (create letterCodecs letterTree noArchive).1 = letterIndex "n/a".toList := by
    simp only [create, htaken, List.map_cons, List.map_nil, entryOf, hrel]
    rfl
  apply restore_create
  · simp only [letterTree, List.mem_singleton, forall_eq]
    exact ⟨_, toStr_letterPath, by decide⟩
  · simp [letterTree, letterCodecs]
  · simp [letterTree]
  · rw [hindex]
    decide +kernel

/-- A file `index.json` does not come back. -/
theorem not_roundTrip_indexTree : ¬ RoundTrip letterCodecs indexTree noArchive fun _ => True := by
  have hrel : relOf indexPath = indexName :=
    relOf_of_toStr (toStr_eq_some_iff.mpr (by decide)) (by decide)
  have htaken : taken indexTree = [] := by
    simp [taken, indexTree, hrel, isSkipped]
  have hcreate : create letterCodecs indexTree noArchive =
      (⟨1, []⟩, ⟨some (printIndex ⟨1, []⟩), ∅⟩) := by
    simp only [create, htaken]
    rfl
  rintro ⟨d, hrestore, hfile⟩
  have hread : readIndex letterCodecs ⟨some (printIndex ⟨1, []⟩), ∅⟩ = .ok ⟨1, []⟩ := by decide +kernel
  obtain ⟨root, hroot, hholds⟩ := FileTable.createDirAll_nil (List UInt8) Bytes
  rw [hcreate] at hrestore
  simp only [restore, hread, hroot, restoreEntries, Prod.mk.injEq, true_and] at hrestore
  obtain rfl := hrestore
  have hthere := (hfile [utf8 indexName] [0x61]).mpr
    ⟨(indexPath, [0x61]), by simp [indexTree], trivial, rfl, rfl⟩
  rw [FileTable.file_eq_some_iff, hholds.file_iff] at hthere
  simp at hthere

end DiskArcana.Core.Archive
