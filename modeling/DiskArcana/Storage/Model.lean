import DiskArcana.Core.Types
import DiskArcana.Lib.OpenFiles
import DiskArcana.Lib.Text

/-!
# The object store on a local disk

`LocalDiskBackend` keeps a row for each key in the table `storage_objects`, and the bytes of each
content once, in a file below `blob_root` that is named after their SHA-256. A `put` writes the file
if it is not there, under a temporary name first; a `delete` removes it when it counts no row with the
content any more; `rename` moves the row only.

Texts are lists of characters. A time is in nanoseconds since the epoch, and `tags` are the map that
their JSON column stands for. Paths of files are the two names below `blob_root`.
-/

namespace DiskArcana.Storage

open DiskArcana.Core DiskArcana.Lib DiskArcana.Lib.Text

abbrev Text := List Char

/-! ## Keys and errors -/

/-- What `std::io` reports here. -/
inductive IoError where
  | notFound
  deriving DecidableEq

/-- What the database reports here. -/
inductive SqlxError where
  | uniqueViolation
  | patternTooComplex
  deriving DecidableEq

/-- Source: `error.rs`, `StorageError` -/
inductive StorageError where
  | notFound (path : Text)
  | alreadyExists (path : Text)
  | invalidPath (path : Text)
  | io (error : IoError)
  | sqlx (error : SqlxError)
  deriving DecidableEq

/-- The text has two dots in a row.
Source: `str::contains` -/
def containsDotDot (s : Text) : Bool := (s.zip s.tail).contains ('.', '.')

/-- Logical object key in the metadata store (vault-relative path).
Source: `types.rs`, `StorageObjectKey` -/
structure StorageObjectKey where
  path : Text
  nonempty : path ≠ []
  relative : path.head? ≠ some '/'
  noDotDot : containsDotDot path = false
  deriving DecidableEq

/-- Source: `types.rs`, `StorageObjectKey::new` -/
def StorageObjectKey.new (path : Text) : Except StorageError StorageObjectKey :=
  if h : path = [] ∨ path.head? = some '/' ∨ containsDotDot path = true then
    .error (.invalidPath path)
  else
    .ok {
      path
      nonempty := fun hpath => h (.inl hpath)
      relative := fun hpath => h (.inr (.inl hpath))
      noDotDot := by simpa using fun hpath => h (.inr (.inr hpath)) }

/-- Source: `types.rs`, `PutOptions` -/
structure PutOptions where
  contentType : Option Text
  tags : Table Text Text

/-- Source: `types.rs`, `ObjectMetadata` -/
structure ObjectMetadata where
  path : Text
  size : ℕ
  contentSha256 : Text
  objectStoreKey : Text
  mtime : ℕ
  createdAt : ℕ
  tags : Table Text Text
  deriving DecidableEq

/-! ## The metadata store -/

/-- A row of `storage_objects`, under its path. -/
structure ObjectRow where
  size : ℕ
  contentSha256 : Text
  objectStoreKey : Text
  mtimeNs : ℤ
  createdAtNs : ℤ
  tags : Table Text Text
  deriving DecidableEq

abbrev ObjectRows := Table Text ObjectRow

/-- Source: `metadata.rs`, `system_time_to_i64` -/
def systemTimeToI64 (ts : ℕ) : ℤ := (ts : ℤ).bmod (2 ^ 64)

/-- Source: `metadata.rs`, `i64_to_system_time` -/
def i64ToSystemTime (ns : ℤ) : ℕ := ns.toNat

/-- Source: `metadata.rs`, `row_to_metadata` -/
def rowToMetadata (path : Text) (row : ObjectRow) : ObjectMetadata where
  path
  size := row.size
  contentSha256 := row.contentSha256
  objectStoreKey := row.objectStoreKey
  mtime := i64ToSystemTime row.mtimeNs
  createdAt := i64ToSystemTime row.createdAtNs
  tags := row.tags

namespace MetadataStore

variable (rows : ObjectRows)

/-- The row of an object; where there is one already, it keeps the time of its creation. -/
def objectRow (object : ObjectMetadata) : ObjectRow where
  size := object.size
  contentSha256 := object.contentSha256
  objectStoreKey := object.objectStoreKey
  mtimeNs := systemTimeToI64 object.mtime
  createdAtNs :=
    match rows.lookup object.path with
    | some row => row.createdAtNs
    | none => systemTimeToI64 object.createdAt
  tags := object.tags

/-- Source: `metadata.rs`, `upsert` -/
def upsert (object : ObjectMetadata) : ObjectRows := rows.insert object.path (objectRow rows object)

/-- Source: `metadata.rs`, `get` -/
def get (path : Text) : Option ObjectMetadata := (rows.lookup path).map (rowToMetadata path)

/-- Source: `metadata.rs`, `delete` -/
def delete (path : Text) : ObjectRows × Bool := (rows.erase path, (rows.lookup path).isSome)

/-- The path is the primary key.
Source: `metadata.rs`, `rename` -/
def rename (source target : Text) : Except StorageError (ObjectRows × Bool) :=
  match rows.lookup source with
  | none => .ok (rows, false)
  | some row =>
      if source ≠ target ∧ (rows.lookup target).isSome then .error (.sqlx .uniqueViolation)
      else .ok ((rows.erase source).insert target row, true)

/-- `SELECT COUNT(*) FROM storage_objects WHERE content_sha256 = ?` -/
def countContent (sha256Hex : Text) : ℕ :=
  rows.entries.countP fun e => e.2.contentSha256 = sha256Hex

variable {rows}

theorem lookup_upsert (object : ObjectMetadata) (path : Text) :
    (upsert rows object).lookup path =
      if path = object.path then some (objectRow rows object) else rows.lookup path :=
  Table.lookup_insert_eq_ite _ _ _ _

/-- The count is zero when no row has the content. -/
theorem countContent_eq_zero {sha256Hex : Text} : countContent rows sha256Hex = 0 ↔
    ∀ path row, rows.lookup path = some row → row.contentSha256 ≠ sha256Hex := by
  unfold countContent
  rw [List.countP_eq_zero]
  constructor
  · intro h path row hrow
    simpa using h ⟨path, row⟩ (Table.mem_entries_iff.mpr hrow)
  · rintro h ⟨path, row⟩ hmem
    simpa using h path row (Table.mem_entries_iff.mp hmem)

/-- What a row that is read holds. -/
theorem of_get_eq_some {path : Text} {object : ObjectMetadata} (h : get rows path = some object) :
    ∃ row, rows.lookup path = some row ∧ object = rowToMetadata path row := by
  obtain ⟨row, hrow, hobject⟩ := Option.map_eq_some_iff.mp h
  exact ⟨row, hrow, hobject.symm⟩

/-- What a row that is moved leaves: the rows of the other paths, and itself under its new path. -/
theorem of_rename_eq_ok {source target : Text} {rows' : ObjectRows}
    (h : rename rows source target = .ok (rows', true)) :
    ∃ row, rows.lookup source = some row ∧ (source ≠ target → rows.lookup target = none) ∧
      rows' = (rows.erase source).insert target row := by
  unfold rename at h
  rcases hrow : rows.lookup source with _ | row
  · simp [hrow] at h
  · rw [hrow] at h
    simp only at h
    split_ifs at h with htaken
    obtain ⟨rfl, -⟩ := Prod.mk.inj (Except.ok.inj h)
    refine ⟨row, rfl, fun hne => ?_, rfl⟩
    rcases htarget : rows.lookup target with _ | other
    · rfl
    · exact absurd ⟨hne, by rw [htarget]; rfl⟩ htaken

/-- A renamed row is the row that it was. -/
theorem rename_of_free {source target : Text} {row : ObjectRow}
    (hsource : rows.lookup source = some row) (htarget : rows.lookup target = none) :
    rename rows source target = .ok ((rows.erase source).insert target row, true) := by
  unfold rename
  rw [hsource, htarget]
  simp

end MetadataStore

/-! ## The blobs -/

/-- The names of the directory and of the file below `blob_root`. -/
abbrev FileName := Text × Text

/-- Source: `local.rs`, `LocalDiskBackend` -/
structure LocalDiskBackend where
  rows : ObjectRows
  blobs : Directory FileName UInt8

/-- Source: `local.rs`, `open`, on a new directory -/
def LocalDiskBackend.new : LocalDiskBackend := ⟨∅, Directory.empty⟩

/-- Source: `local.rs`, `blob_path` -/
def blobPath (sha256Hex : Text) : FileName := (sha256Hex.take 2, sha256Hex.drop 2)

/-- `dest.with_extension("tmp")`; a hash has no extension of its own. -/
def tempPath (sha256Hex : Text) : FileName := (sha256Hex.take 2, sha256Hex.drop 2 ++ ".tmp".toList)

theorem blobPath_injective : Function.Injective blobPath := by
  intro s t h
  obtain ⟨htake, hdrop⟩ := Prod.mk.inj h
  rw [← List.take_append_drop 2 s, ← List.take_append_drop 2 t, htake, hdrop]

theorem tempPath_injective : Function.Injective tempPath := by
  intro s t h
  obtain ⟨htake, hdrop⟩ := Prod.mk.inj h
  rw [← List.take_append_drop 2 s, ← List.take_append_drop 2 t, htake, List.append_cancel_right hdrop]

/-- A temporary file is not the blob of a hash. -/
theorem tempPath_ne_blobPath {s t : Text} (ht : '.' ∉ t) : tempPath s ≠ blobPath t := by
  intro h
  apply ht
  apply List.mem_of_mem_drop (i := 2)
  rw [← (Prod.mk.inj h).2]
  simp

/-- Source: `metadata.rs`, `object_key_for` -/
def objectKeyFor (path sha256Hex : Text) : Text := path ++ '@' :: sha256Hex

section

variable (sha256 : Bytes → Digest)

/-- Source: `metadata.rs`, `content_sha256_hex` -/
def contentSha256Hex (data : Bytes) : Text := hex (sha256 data).toList

theorem dot_notMem_contentSha256Hex (data : Bytes) : '.' ∉ contentSha256Hex sha256 data :=
  notMem_hex (by decide) _

variable {sha256} in
/-- Where the digests of contents differ, so do their texts. -/
theorem contentSha256Hex_injOn {contents : Set Bytes} (h : Set.InjOn sha256 contents) :
    Set.InjOn (contentSha256Hex sha256) contents := by
  intro x hx y hy hxy
  exact h hx hy (List.Vector.eq _ _ (hex_injective hxy))

namespace LocalDiskBackend

variable (b : LocalDiskBackend)

/-- Source: `local.rs`, `write_blob` -/
def writeBlob (sha256Hex : Text) (data : Bytes) : LocalDiskBackend × Except StorageError Unit :=
  if b.blobs.contains (blobPath sha256Hex) then (b, .ok ())
  else
    let (blobs, file) := b.blobs.create (tempPath sha256Hex)
    let blobs := blobs.writeAll file data
    match blobs.rename (tempPath sha256Hex) (blobPath sha256Hex) with
    | some blobs => ({ b with blobs }, .ok ())
    | none =>
        if blobs.contains (blobPath sha256Hex) then
          ({ b with blobs := blobs.remove (tempPath sha256Hex) }, .ok ())
        else ({ b with blobs }, .error (.io .notFound))

/-- Source: `local.rs`, `read_blob` -/
def readBlob (sha256Hex : Text) : Except StorageError Bytes :=
  match b.blobs.read (blobPath sha256Hex) with
  | some data => .ok data
  | none => .error (.notFound sha256Hex)

/-- Source: `local.rs`, `delete_blob_if_unreferenced` -/
def deleteBlobIfUnreferenced (sha256Hex : Text) : LocalDiskBackend × Except StorageError Unit :=
  if MetadataStore.countContent b.rows sha256Hex = 0 then
    if b.blobs.contains (blobPath sha256Hex) then
      ({ b with blobs := b.blobs.remove (blobPath sha256Hex) }, .ok ())
    else (b, .ok ())
  else (b, .ok ())

/-- What a `put` stores about its bytes. -/
def putMetadata (path : StorageObjectKey) (data : Bytes) (options : PutOptions) (now : ℕ) :
    ObjectMetadata :=
  let sha := contentSha256Hex sha256 data
  { path := path.path
    size := data.length
    contentSha256 := sha
    objectStoreKey := objectKeyFor path.path sha
    mtime := now
    createdAt := now
    tags := options.tags }

/-- Source: `local.rs`, `put` -/
def put (path : StorageObjectKey) (data : Bytes) (options : PutOptions) (now : ℕ) :
    LocalDiskBackend × Except StorageError ObjectMetadata :=
  match b.writeBlob (contentSha256Hex sha256 data) data with
  | (b, .error e) => (b, .error e)
  | (b, .ok ()) =>
      let object := putMetadata sha256 path data options now
      ({ b with rows := MetadataStore.upsert b.rows object }, .ok object)

/-- Source: `local.rs`, `get` -/
def get (path : StorageObjectKey) : Except StorageError Bytes :=
  match MetadataStore.get b.rows path.path with
  | none => .error (.notFound path.path)
  | some object => b.readBlob object.contentSha256

/-- Source: `local.rs`, `delete` -/
def delete (path : StorageObjectKey) : LocalDiskBackend × Except StorageError Unit :=
  match MetadataStore.get b.rows path.path with
  | none => (b, .error (.notFound path.path))
  | some object =>
      match MetadataStore.delete b.rows path.path with
      | (_, false) => (b, .error (.notFound path.path))
      | (rows, true) => deleteBlobIfUnreferenced { b with rows } object.contentSha256

/-- What a `rename` stores about the object that it found. -/
def renamedMetadata (object : ObjectMetadata) (target : StorageObjectKey) (now : ℕ) :
    ObjectMetadata :=
  { object with path := target.path, mtime := now }

/-- Source: `local.rs`, `rename` -/
def rename (source target : StorageObjectKey) (now : ℕ) :
    LocalDiskBackend × Except StorageError ObjectMetadata :=
  match MetadataStore.get b.rows source.path with
  | none => (b, .error (.notFound source.path))
  | some object =>
      if (MetadataStore.get b.rows target.path).isSome then
        (b, .error (.alreadyExists target.path))
      else
        match MetadataStore.rename b.rows source.path target.path with
        | .error e => (b, .error e)
        | .ok (_, false) => (b, .error (.notFound source.path))
        | .ok (rows, true) =>
            let updated := renamedMetadata object target now
            ({ b with rows := MetadataStore.upsert rows updated }, .ok updated)

/-- Source: `local.rs`, `exists` -/
def exists_ (path : StorageObjectKey) : Bool := (MetadataStore.get b.rows path.path).isSome

end LocalDiskBackend

end

end DiskArcana.Storage
