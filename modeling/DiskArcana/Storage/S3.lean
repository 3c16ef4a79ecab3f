import DiskArcana.Lib.OsPath
import DiskArcana.Storage.Refinement

/-!
# The object store on S3

`S3StorageBackend` keeps the rows of `MetadataStore` as the local backend does, and the bytes of an
object in a bucket under the row's `object_store_key`, which names the path and the content. A `put`
writes its object in any case; a `delete` counts the rows with the content, as the local backend, and
removes the object of the row that it deletes if there is none.

The bucket is a table from keys to bytes, and its requests succeed. The two backends answer through
one trait, `StorageBackend`: a call and a reply are those of the trait.
-/

namespace DiskArcana.Storage

open DiskArcana.Core DiskArcana.Lib

/-! ## Lists -/

/-- The letters are the same, ASCII letters in either case. -/
def eqNoCase (c d : Char) : Bool := c.toLower = d.toLower

/-- A text matches a pattern: `%` stands for any text, `_` for any character.
Source: SQLite, `LIKE` -/
def like : Text → Text → Bool
  | [], text => text.isEmpty
  | '%' :: pattern, text => text.tails.any (like pattern)
  | p :: pattern, c :: text => (p = '_' || eqNoCase p c) && like pattern text
  | _ :: _, [] => false

@[simp] theorem eqNoCase_self (c : Char) : eqNoCase c c = true := decide_eq_true rfl

theorem like_nil_iff {text : Text} : like [] text = true ↔ text = [] := by
  rw [like, List.isEmpty_iff]

theorem like_percent_iff {pattern text : Text} :
    like ('%' :: pattern) text = true ↔ ∃ rest, rest <:+ text ∧ like pattern rest = true := by
  rw [like, List.any_eq_true]
  simp only [List.mem_tails]

theorem like_cons_of_ne {c : Char} (hc : c ≠ '%') (pattern : Text) (d : Char) (text : Text) :
    like (c :: pattern) (d :: text) = ((c = '_' || eqNoCase c d) && like pattern text) := by
  rw [like]
  exact fun h => hc h

/-- What `LIKE` sees of a text: a text ends at its first NUL. -/
def cString (text : Text) : Text := text.takeWhile (· ≠ '\x00')

/-- Source: `types.rs`, `ListOptions` -/
structure ListOptions where
  pathPrefix : Option Text
  limit : Option ℕ

/-- Source: `types.rs`, `ListEntry` -/
structure ListEntry where
  path : Text
  size : ℕ
  contentSha256 : Text
  deriving DecidableEq

/-- The rows for a pattern that SQLite takes.
Source: `metadata.rs`, `list_prefix` -/
def MetadataStore.listPrefix (rows : ObjectRows) (pathPrefix : Option Text) (limit : ℕ) :
    List ObjectMetadata :=
  let objects := rows.entries.map fun e => rowToMetadata e.1 e.2
  let found := objects.filter fun object =>
    pathPrefix.all fun p => like (cString (p ++ ['%'])) (cString object.path)
  (found.insertionSort fun a b => a.path ≤ b.path).take limit

/-- The entries of the rows that are found. -/
def listObjects (rows : ObjectRows) (options : ListOptions) : List ListEntry :=
  (MetadataStore.listPrefix rows options.pathPrefix (options.limit.getD 1000)).map fun object =>
    ⟨object.path, object.size, object.contentSha256⟩

/-- The longest pattern that `LIKE` takes, in bytes.
Source: SQLite, `SQLITE_MAX_LIKE_PATTERN_LENGTH` -/
def likePatternLimit : ℕ := 50000

/-- A pattern is too long. It is compared with no row, if there is none or none is asked for. -/
def patternRefused (rows : ObjectRows) (options : ListOptions) : Bool :=
  !rows.entries.isEmpty && options.limit.getD 1000 ≠ 0 &&
    options.pathPrefix.any fun p => likePatternLimit < (OsPath.utf8 (p ++ ['%'])).length

/-- What both backends list. -/
def tryListObjects (rows : ObjectRows) (options : ListOptions) : Except StorageError (List ListEntry) :=
  if patternRefused rows options then .error (.sqlx .patternTooComplex) else .ok (listObjects rows options)

/-- Source: `local.rs`, `list` -/
def LocalDiskBackend.list (b : LocalDiskBackend) (options : ListOptions) :
    Except StorageError (List ListEntry) := tryListObjects b.rows options

/-! ## Calls and replies -/

/-- A call through `StorageBackend`.
Source: `backend.rs`, `StorageBackend` -/
inductive StorageCall where
  | put (path : StorageObjectKey) (data : Bytes) (options : PutOptions)
  | get (path : StorageObjectKey)
  | delete (path : StorageObjectKey)
  | rename (source target : StorageObjectKey)
  | list (options : ListOptions)
  | exists_ (path : StorageObjectKey)

/-- The bytes that a call stores. -/
def StorageCall.data : StorageCall → Option Bytes
  | .put _ data _ => some data
  | _ => none

/-- What a call gives back. -/
inductive Reply where
  | object (o : ObjectMetadata)
  | bytes (data : Bytes)
  | deleted
  | entries (listed : List ListEntry)
  | present (answer : Bool)
  deriving DecidableEq

/-- An error of a backend: `metadata` carries the code of an error of the bucket. -/
inductive BackendError where
  | storage (error : StorageError)
  | metadata (code : Text)
  deriving DecidableEq

/-- The object without its times. -/
def ObjectMetadata.timeless (object : ObjectMetadata) : ObjectMetadata :=
  { object with mtime := 0, createdAt := 0 }

/-- The reply without times. -/
def Reply.timeless : Reply → Reply
  | .object o => .object o.timeless
  | reply => reply

section

variable (sha256 : Bytes → Digest)

/-- Source: `local.rs`, `impl StorageBackend for LocalDiskBackend` -/
def LocalDiskBackend.call (b : LocalDiskBackend) (call : StorageCall) (now : ℕ) :
    LocalDiskBackend × Except BackendError Reply :=
  match call with
  | .put path data options =>
      let (b, reply) := b.put sha256 path data options now
      (b, (reply.map .object).mapError .storage)
  | .get path => (b, ((b.get path).map .bytes).mapError .storage)
  | .delete path =>
      let (b, reply) := b.delete path
      (b, (reply.map fun _ => .deleted).mapError .storage)
  | .rename source target =>
      let (b, reply) := b.rename source target now
      (b, (reply.map .object).mapError .storage)
  | .list options => (b, ((b.list options).map .entries).mapError .storage)
  | .exists_ path => (b, .ok (.present (b.exists_ path)))

/-! ## The backend -/

/-- Source: `s3/backend.rs`, `S3StorageBackend` -/
structure S3StorageBackend where
  rows : ObjectRows
  bucket : Table Text Bytes

/-- Source: `s3/backend.rs`, `open`, on an empty bucket -/
def S3StorageBackend.new : S3StorageBackend := ⟨∅, ∅⟩

namespace S3StorageBackend

variable (b : S3StorageBackend)

/-- Source: `s3/client.rs`, `put_object` -/
def putObject (key : Text) (data : Bytes) : S3StorageBackend :=
  { b with bucket := b.bucket.insert key data }

/-- Source: `s3/client.rs`, `get_object` and `map_sdk_error` -/
def getObject (key : Text) : Except BackendError Bytes :=
  match b.bucket.lookup key with
  | some data => .ok data
  | none => .error (.metadata "NoSuchKey".toList)

/-- Source: `s3/client.rs`, `delete_object` -/
def deleteObject (key : Text) : S3StorageBackend := { b with bucket := b.bucket.erase key }

/-- Source: `s3/backend.rs`, `put` -/
def put (path : StorageObjectKey) (data : Bytes) (options : PutOptions) (now : ℕ) :
    S3StorageBackend × Except BackendError ObjectMetadata :=
  let sha := contentSha256Hex sha256 data
  let objectKey := objectKeyFor path.path sha
  let b := b.putObject objectKey data
  let object : ObjectMetadata :=
    { path := path.path
      size := data.length
      contentSha256 := sha
      objectStoreKey := objectKey
      mtime := now
      createdAt := now
      tags := options.tags }
  ({ b with rows := MetadataStore.upsert b.rows object }, .ok object)

/-- Source: `s3/backend.rs`, `get` -/
def get (path : StorageObjectKey) : Except BackendError Bytes :=
  match MetadataStore.get b.rows path.path with
  | none => .error (.storage (.notFound path.path))
  | some object => b.getObject object.objectStoreKey

/-- Source: `s3/backend.rs`, `delete` -/
def delete (path : StorageObjectKey) : S3StorageBackend × Except BackendError Unit :=
  match MetadataStore.get b.rows path.path with
  | none => (b, .error (.storage (.notFound path.path)))
  | some object =>
      match MetadataStore.delete b.rows path.path with
      | (_, false) => (b, .error (.storage (.notFound path.path)))
      | (rows, true) =>
          let b := { b with rows }
          if MetadataStore.countContent rows object.contentSha256 = 0 then
            (b.deleteObject object.objectStoreKey, .ok ())
          else (b, .ok ())

/-- Source: `s3/backend.rs`, `rename` -/
def rename (source target : StorageObjectKey) (now : ℕ) :
    S3StorageBackend × Except BackendError ObjectMetadata :=
  match MetadataStore.get b.rows source.path with
  | none => (b, .error (.storage (.notFound source.path)))
  | some object =>
      if (MetadataStore.get b.rows target.path).isSome then
        (b, .error (.storage (.alreadyExists target.path)))
      else
        match MetadataStore.rename b.rows source.path target.path with
        | .error e => (b, .error (.storage e))
        | .ok (_, false) => (b, .error (.storage (.notFound source.path)))
        | .ok (rows, true) =>
            let updated := { object with path := target.path, mtime := now }
            ({ b with rows := MetadataStore.upsert rows updated }, .ok updated)

/-- Source: `s3/backend.rs`, `list` -/
def list (options : ListOptions) : Except StorageError (List ListEntry) := tryListObjects b.rows options

/-- Source: `s3/backend.rs`, `exists` -/
def exists_ (path : StorageObjectKey) : Bool := (MetadataStore.get b.rows path.path).isSome

/-- Source: `s3/backend.rs`, `impl StorageBackend for S3StorageBackend` -/
def call (call : StorageCall) (now : ℕ) : S3StorageBackend × Except BackendError Reply :=
  match call with
  | .put path data options =>
      let (b, reply) := b.put sha256 path data options now
      (b, reply.map .object)
  | .get path => (b, (b.get path).map .bytes)
  | .delete path =>
      let (b, reply) := b.delete path
      (b, reply.map fun _ => .deleted)
  | .rename source target =>
      let (b, reply) := b.rename source target now
      (b, reply.map .object)
  | .list options => (b, ((b.list options).map .entries).mapError .storage)
  | .exists_ path => (b, .ok (.present (b.exists_ path)))

end S3StorageBackend

end

end DiskArcana.Storage
