import DiskArcana.Core.PathGuard
import DiskArcana.Core.SelectiveSync
import DiskArcana.Lib.FileTable

/-!
# Embedding sidecars

`disk-core/src/embeddings`. The vector of a source file is kept in a share beside a manifest, both below
`.disk-embeddings` under the path of the source. `writeSidecar` writes the vector first and then the
manifest, which has the hash of the source, the model and the size; `evaluateStaleness` compares these
with what is there, and looks at the vector only for its length.

A share is a table of files and directories without links, and paths are text. BLAKE3 in hexadecimal and
`serde_json` are parameters. A call can be cut off after the vector (`writeVectorBlob`).
-/

namespace DiskArcana.Core.Embeddings

open DiskArcana.Lib DiskArcana.Lib.LexicalPath

/-- What is below the root of a share. -/
abbrev Share := FileTable String Bytes

/-! ## Paths -/

/-- Source: `embeddings/paths.rs`, `CO_STORAGE_ROOT` -/
def coStorageRoot : String := ".disk-embeddings"

/-- Source: `embeddings/paths.rs`, `MANIFEST_SUFFIX` -/
def manifestSuffix : String := ".manifest.json"

/-- Source: `embeddings/paths.rs`, `VECTOR_SUFFIX` -/
def vectorSuffix : String := ".vec.bin"

/-- `PathBuf::push`: an absolute path replaces the other one. -/
def push (path rel : Path) : Path :=
  if rel.head? = some "/" then rel else path ++ rel.filter (· ≠ ".")

/-- `PathBuf::set_file_name`. -/
def setFileName (path : Path) (name : String) : Path :=
  (if (fileName path).isSome then path.dropLast else path) ++ [name]

/-- The body of `manifest_rel_path` and `vector_blob_rel_path`. -/
def sidecarRelPath (suffix : String) (sourceRel : Path) : Path :=
  setFileName (push [coStorageRoot] sourceRel) ((fileName sourceRel).getD "" ++ suffix)

/-- Source: `embeddings/paths.rs`, `manifest_rel_path` -/
def manifestRelPath : Path → Path := sidecarRelPath manifestSuffix

/-- Source: `embeddings/paths.rs`, `vector_blob_rel_path` -/
def vectorBlobRelPath : Path → Path := sidecarRelPath vectorSuffix

/-- Where a relative path leads in a share. -/
def locate (rel : Path) : Path := rel.filter (· ≠ ".")

/-! ## The manifest -/

/-- Source: `embeddings/manifest.rs`, `SidecarManifest` -/
structure SidecarManifest where
  schemaVersion : UInt32
  sourcePath : String
  sourceContentHash : String
  modelId : String
  dimensions : UInt32
  vectorBytes : UInt64
  createdAtUnix : Option UInt64
  deriving DecidableEq

/-- Source: `embeddings/manifest.rs`, `EMBEDDINGS_SCHEMA_VERSION` -/
def embeddingsSchemaVersion : UInt32 := 1

/-- What the sidecars use of other libraries: `hash_file` in hexadecimal, `to_string_pretty`, and
`read_to_string` with `from_str`. -/
structure Codecs where
  hashHex : Bytes → String
  toStringPretty : SidecarManifest → Bytes
  fromStr : Bytes → Option SidecarManifest

/-- The kind of the error of a manifest that cannot be read. -/
inductive ErrorKind where
  | invalidData
  deriving DecidableEq

/-- Source: `embeddings/manifest.rs`, `Staleness` -/
inductive Staleness where
  | fresh
  | missingManifest
  | missingVector
  | staleHash
  | staleModel
  | staleDimensions
  | staleVectorSize
  deriving DecidableEq

/-- Source: `embeddings/write.rs`, `WriteSidecarError` -/
inductive WriteSidecarError where
  | invalidPath (reason : String)
  | coStorageSource
  | sourceNotFound
  | vectorSizeMismatch (actual expected : ℕ) (dimensions : UInt32)
  | pathGuard (error : PathGuard.PathGuardError)
  | io
  deriving DecidableEq

/-- Source: `embeddings/write.rs`, `WriteSidecarResult` -/
structure WriteSidecarResult where
  sourcePath : String
  sourceContentHash : String
  manifestRel : Path
  vectorRel : Path
  vectorBytes : ℕ
  deriving DecidableEq

/-- What `write_sidecar` is called with, and when. -/
structure Request where
  sourceRel : String
  vectorBytes : Bytes
  modelId : String
  dimensions : UInt32
  now : UInt64

/-- The size of a vector.
Source: `embeddings/write.rs`, `u64::from(dimensions) * 4` -/
def expectedBytes (dimensions : UInt32) : ℕ := dimensions.toNat * 4

/-- Source: `embeddings/write.rs`, `normalize_source_rel` -/
def normalizeSourceRel (raw : String) : Except WriteSidecarError String :=
  let trimmed := (trimChars isTrimmed raw.toList).map forward
  if trimmed.isEmpty ∨ ['.', '.'] <:+: trimmed then
    .error (.invalidPath "must be non-empty without '..'")
  else
    let normalized := trimChars (· == '/') trimmed
    if normalized.isEmpty then .error (.invalidPath "must be non-empty")
    else .ok (String.ofList normalized)

section

variable (codecs : Codecs)

/-- Source: `embeddings/manifest.rs`, `write_to_share` -/
def SidecarManifest.writeToShare (manifest : SidecarManifest) (share : Share) (sourceRel : Path) :
    Share × Bool :=
  share.put (locate (manifestRelPath sourceRel)) (codecs.toStringPretty manifest)

/-- Source: `embeddings/manifest.rs`, `read_from_share` -/
def readFromShare (share : Share) (sourceRel : Path) : Except ErrorKind (Option SidecarManifest) :=
  match share.file (locate (manifestRelPath sourceRel)) with
  | none => .ok none
  | some raw =>
    match codecs.fromStr raw with
    | some parsed => .ok (some parsed)
    | none => .error .invalidData

/-- Source: `embeddings/manifest.rs`, `evaluate_staleness` -/
def evaluateStaleness (share : Share) (sourceRel : Path) (currentHashHex expectedModelId : String)
    (expectedDimensions : UInt32) : Staleness :=
  match readFromShare codecs share sourceRel with
  | .ok none => .missingManifest
  | .error _ => .missingManifest
  | .ok (some manifest) =>
    match share.file (locate (vectorBlobRelPath sourceRel)) with
    | none => .missingVector
    | some vector =>
      if manifest.sourceContentHash ≠ currentHashHex then .staleHash
      else if manifest.modelId ≠ expectedModelId then .staleModel
      else if manifest.dimensions ≠ expectedDimensions then .staleDimensions
      else if vector.length ≠ manifest.vectorBytes.toNat then .staleVectorSize
      else .fresh

/-! ## `write_sidecar` -/

variable (root : List String)

/-- The guard of a share without links, which is at `root`.
Source: `path_guard.rs`, `validate` -/
def validate (candidate : Path) : Except PathGuard.PathGuardError Path :=
  if candidate.any fun segment => segment.toList.contains '\x00' then .error .nullByte
  else if ".." ∈ candidate then .error .relativeWithDotDot
  else if PathGuard.pathMax < PathGuard.pathLen (root ++ locate candidate) then .error .pathTooLong
  else .ok (locate candidate)

/-- What is checked before anything is written: the source as it is recorded, and its hash.
Source: `embeddings/write.rs`, `write_sidecar` -/
def checkSource (share : Share) (request : Request) : Except WriteSidecarError (String × String) :=
  match normalizeSourceRel request.sourceRel with
  | .error e => .error e
  | .ok sourcePath =>
    if isCoStoragePath (components sourcePath) then .error .coStorageSource
    else if request.vectorBytes.length ≠ expectedBytes request.dimensions then
      .error (.vectorSizeMismatch request.vectorBytes.length (expectedBytes request.dimensions)
        request.dimensions)
    else
      match validate root (components sourcePath) with
      | .error e => .error (.pathGuard e)
      | .ok sourceAbs =>
        match share.file sourceAbs with
        | none => .error .sourceNotFound
        | some content => .ok (sourcePath, codecs.hashHex content)

/-- A call up to the vector.
Source: `embeddings/write.rs`, `write_sidecar` -/
def writeVectorBlob (share : Share) (request : Request) :
    Share × Except WriteSidecarError (String × String) :=
  match checkSource codecs root share request with
  | .error e => (share, .error e)
  | .ok (sourcePath, hashHex) =>
    let (share, written) :=
      share.put (locate (vectorBlobRelPath (components sourcePath))) request.vectorBytes
    (share, if written then .ok (sourcePath, hashHex) else .error .io)

/-- The manifest of a call. -/
def manifestOf (request : Request) (sourcePath hashHex : String) : SidecarManifest where
  schemaVersion := embeddingsSchemaVersion
  sourcePath := sourcePath
  sourceContentHash := hashHex
  modelId := request.modelId
  dimensions := request.dimensions
  vectorBytes := UInt64.ofNat (expectedBytes request.dimensions)
  createdAtUnix := some request.now

/-- Source: `embeddings/write.rs`, `write_sidecar` -/
def writeSidecar (share : Share) (request : Request) :
    Share × Except WriteSidecarError WriteSidecarResult :=
  match writeVectorBlob codecs root share request with
  | (share, .error e) => (share, .error e)
  | (share, .ok (sourcePath, hashHex)) =>
    let sourceRel := components sourcePath
    let (share, written) :=
      (manifestOf request sourcePath hashHex).writeToShare codecs share sourceRel
    (share, if written then
      .ok ⟨sourcePath, hashHex, manifestRelPath sourceRel, vectorBlobRelPath sourceRel,
        expectedBytes request.dimensions⟩ else .error .io)

end

/-! ## The sources that are accepted -/

/-- The path of a source: names from the root of the share on. -/
structure IsSource (source : Path) : Prop where
  ne_nil : source ≠ []
  isNormal : ∀ name ∈ source, Core.isNormal name = true

/-- The path of a sidecar in a share. -/
def sidecarAt (suffix : String) (source : Path) : Path :=
  coStorageRoot :: source.dropLast ++ [source.getLastD "" ++ suffix]

section

variable {raw sourcePath suffix suffix' : String} {source source' : Path}

theorem normalizeSourceRel_stored (h : normalizeSourceRel raw = .ok sourcePath) :
    Stored sourcePath.toList := by
  have hprefix : normalizeIncludePrefix raw = .ok sourcePath := by
    unfold normalizeSourceRel at h
    unfold normalizeIncludePrefix
    dsimp only at h ⊢
    split_ifs at h with hbad hempty
    rw [not_or] at hbad
    rw [if_neg hbad.1, if_neg hbad.2, if_neg hempty]
    exact congrArg Except.ok (Except.ok.inj h)
  exact (of_normalizeIncludePrefix hprefix).2

theorem locate_of_isSource (hs : IsSource source) : locate source = source := by
  rw [locate, List.filter_eq_self]
  intro name hname
  have hnormal := hs.isNormal name hname
  simp only [Core.isNormal, Bool.and_eq_true, bne_iff_ne] at hnormal
  exact decide_eq_true hnormal.1.2

/-- A source that is accepted is the root or a path of names, perhaps with a `.` in front. -/
theorem components_of_normalized (h : normalizeSourceRel raw = .ok sourcePath)
    (hroot : locate (components sourcePath) ≠ []) :
    IsSource (locate (components sourcePath)) ∧
      (components sourcePath = locate (components sourcePath) ∨
        components sourcePath = "." :: locate (components sourcePath)) := by
  have hstored := normalizeSourceRel_stored h
  have hrelative : sourcePath.toList.head? ≠ some '/' := by
    intro hslash
    have := hstored.bare.1 '/' hslash
    simp at this
  obtain ⟨hdot, hparts⟩ := components_of_relative hrelative
  have hup : ".." ∉ components sourcePath := fun hmem => hstored.noDots (hparts _ hmem).2
  have hslash : "/" ∉ components sourcePath := fun hmem => (hparts _ hmem).1 (by decide)
  have hnormal : ∀ name ∈ locate (components sourcePath), Core.isNormal name = true := by
    intro name hname
    obtain ⟨hmem, hne⟩ := List.mem_filter.mp hname
    simp only [Core.isNormal, Bool.and_eq_true, bne_iff_ne]
    exact ⟨⟨fun h => hslash (h ▸ hmem), of_decide_eq_true hne⟩, fun h => hup (h ▸ hmem)⟩
  refine ⟨⟨hroot, hnormal⟩, ?_⟩
  rcases hcomponents : components sourcePath with _ | ⟨first, rest⟩
  · exact .inl rfl
  · rw [hcomponents] at hdot
    have hrest : rest.filter (· ≠ ".") = rest := by
      rw [List.filter_eq_self]
      exact fun name hname => decide_eq_true fun h => hdot (h ▸ hname)
    by_cases hfirst : first = "."
    · right
      rw [locate, List.filter_cons_of_neg (by simpa using hfirst), hrest, hfirst]
    · left
      rw [locate, List.filter_cons_of_pos (by simpa using hfirst), hrest]

/-! ## Where sidecars are -/

theorem fileName_append_singleton {name : String} (hname : Core.isNormal name = true) (path : Path) :
    fileName (path ++ [name]) = some name := by
  rw [fileName, List.getLast?_concat, Option.filter_some, if_pos hname]

theorem sidecarRelPath_append (suffix : String) (front : Path) {names : List String} {last : String}
    (hfront : (front ++ names ++ [last]).head? ≠ some "/")
    (hnames : (front ++ names ++ [last]).filter (· ≠ ".") = names ++ [last])
    (hlast : Core.isNormal last = true) :
    sidecarRelPath suffix (front ++ names ++ [last]) = coStorageRoot :: names ++ [last ++ suffix] := by
  rw [sidecarRelPath, push, if_neg hfront, hnames, fileName_append_singleton hlast, setFileName,
    ← List.append_assoc, fileName_append_singleton hlast, Option.isSome_some, if_pos rfl,
    List.dropLast_concat]
  rfl

theorem sidecarRelPath_of_isSource (suffix : String) (hs : IsSource source) :
    sidecarRelPath suffix source = sidecarAt suffix source ∧
      sidecarRelPath suffix ("." :: source) = sidecarAt suffix source := by
  obtain ⟨names, last, rfl⟩ : ∃ names last, source = names ++ [last] :=
    ⟨_, _, (List.dropLast_append_getLast hs.ne_nil).symm⟩
  have hlocate := locate_of_isSource hs
  have hlast := hs.isNormal last (by simp)
  have hat : sidecarAt suffix (names ++ [last]) = coStorageRoot :: names ++ [last ++ suffix] := by
    simp [sidecarAt]
  rw [hat]
  constructor
  · refine sidecarRelPath_append suffix [] ?_ hlocate hlast
    intro hhead
    have hnormal := hs.isNormal "/" (List.mem_of_mem_head? hhead)
    exact absurd hnormal (by decide)
  · refine sidecarRelPath_append suffix ["."] (by simp) ?_ hlast
    rw [List.append_assoc, List.singleton_append, List.filter_cons_of_neg (by decide)]
    exact hlocate

/-- What a call names as a source is where its sidecars are. -/
theorem sidecarRelPath_components (suffix : String) (h : normalizeSourceRel raw = .ok sourcePath)
    (hroot : locate (components sourcePath) ≠ []) :
    sidecarRelPath suffix (components sourcePath) =
      sidecarAt suffix (locate (components sourcePath)) := by
  obtain ⟨hs, heq | heq⟩ := components_of_normalized h hroot
  · rw [heq, locate_of_isSource hs]
    exact (sidecarRelPath_of_isSource suffix hs).1
  · conv_lhs => rw [heq]
    exact (sidecarRelPath_of_isSource suffix hs).2

theorem dropLast_sidecarAt (suffix : String) (source : Path) :
    (sidecarAt suffix source).dropLast = coStorageRoot :: source.dropLast := by
  rw [sidecarAt, List.dropLast_concat]

theorem append_ne_dot (name : String) (hsuffix : 2 ≤ suffix.toList.length) : name ++ suffix ≠ "." := by
  intro h
  have hlength := congrArg (fun t : String => t.toList.length) h
  simp only [String.toList_append, List.length_append] at hlength
  have hdot : ".".toList.length = 1 := rfl
  omega

theorem locate_sidecarAt (hsuffix : 2 ≤ suffix.toList.length) (hs : IsSource source) :
    locate (sidecarAt suffix source) = sidecarAt suffix source := by
  rw [locate, List.filter_eq_self]
  intro name hname
  refine decide_eq_true ?_
  rw [sidecarAt, List.mem_append, List.mem_cons, List.mem_singleton] at hname
  obtain (rfl | hmem) | rfl := hname
  · decide
  · rintro rfl
    exact absurd (hs.isNormal "." (List.mem_of_mem_dropLast hmem)) (by decide)
  · exact append_ne_dot _ hsuffix

theorem of_sidecarAt_eq (h : sidecarAt suffix source = sidecarAt suffix' source') :
    source.dropLast = source'.dropLast ∧
      (source.getLastD "").toList ++ suffix.toList =
        (source'.getLastD "").toList ++ suffix'.toList := by
  obtain ⟨hfront, hlast⟩ := List.append_inj' h rfl
  have hname := congrArg String.toList (List.singleton_inj.mp hlast)
  rw [String.toList_append, String.toList_append] at hname
  exact ⟨List.tail_eq_of_cons_eq hfront, hname⟩

theorem sidecarAt_inj (hs : IsSource source) (hs' : IsSource source') :
    sidecarAt suffix source = sidecarAt suffix source' ↔ source = source' := by
  refine ⟨fun h => ?_, fun h => h ▸ rfl⟩
  obtain ⟨hfront, hname⟩ := of_sidecarAt_eq h
  have hlast := String.toList_inj.mp (List.append_cancel_right hname)
  rw [List.getLastD_eq_getLast?, List.getLastD_eq_getLast?, List.getLast?_eq_some_getLast hs.ne_nil,
    List.getLast?_eq_some_getLast hs'.ne_nil, Option.getD_some, Option.getD_some] at hlast
  rw [← List.dropLast_append_getLast hs.ne_nil, ← List.dropLast_append_getLast hs'.ne_nil, hfront,
    hlast]

theorem manifest_ne_vector (source source' : Path) :
    sidecarAt manifestSuffix source ≠ sidecarAt vectorSuffix source' := by
  intro h
  obtain ⟨-, hname⟩ := of_sidecarAt_eq h
  -- the suffixes differ in their last characters
  have hmanifest : manifestSuffix.toList =
      ['.', 'm', 'a', 'n', 'i', 'f'] ++ ['e', 's', 't', '.', 'j', 's', 'o', 'n'] := by decide
  have hvector : vectorSuffix.toList = ['.', 'v', 'e', 'c', '.', 'b', 'i', 'n'] := by decide
  rw [hmanifest, hvector, ← List.append_assoc] at hname
  have hends := (List.append_inj' hname rfl).2
  cases hends

end

end DiskArcana.Core.Embeddings
