import DiskArcana.Lib.Trace
import DiskArcana.Storage.Refinement

/-!
# Calls on the object store that run at the same time

A call is a task that goes from one statement or file operation to the next (`storeStep`); between two
of its steps other tasks take theirs. A task that is left alone does what the call does
(`putStep_iterate`, `deleteStep_iterate`, `renameStep_iterate`).

The law is that every row has its blob, whenever no `put` is between its blob and its row, and that no
blob is left without a row once all tasks are done (`StoreLaw`).
-/

namespace DiskArcana.Storage

open DiskArcana.Core DiskArcana.Lib

/-! ## Tasks -/

/-- What a `put` does next. -/
inductive PutPhase where
  /-- Look whether the blob is there. -/
  | start
  /-- Create the temporary file. -/
  | absent
  /-- Write through the handle. -/
  | created (file : ℕ)
  /-- Give the temporary file the name of the blob. -/
  | written
  /-- The temporary file was gone; look for the blob again. -/
  | contended
  /-- Remove the temporary file, whatever comes of it. -/
  | discarding
  /-- Write the row. -/
  | stored
  | done (answer : Except StorageError ObjectMetadata)
  deriving DecidableEq

/-- What a `delete` does next. -/
inductive DeletePhase where
  /-- Read the row. -/
  | start
  /-- Delete the row. -/
  | found (sha256Hex : Text)
  /-- Count the rows with the content. -/
  | rowDeleted (sha256Hex : Text)
  /-- Look whether the blob is there. -/
  | unreferenced (sha256Hex : Text)
  /-- Remove the blob. -/
  | removing (sha256Hex : Text)
  | done (answer : Except StorageError Unit)
  deriving DecidableEq

/-- What a `rename` does next. -/
inductive RenamePhase where
  /-- Read the row. -/
  | start
  /-- Look for a row under the new name. -/
  | found (object : ObjectMetadata)
  /-- Move the row. -/
  | free (object : ObjectMetadata)
  /-- Write the row again. -/
  | moved (object : ObjectMetadata)
  | done (answer : Except StorageError ObjectMetadata)
  deriving DecidableEq

/-- A call that is under way. -/
inductive Task where
  | put (path : StorageObjectKey) (data : Bytes) (options : PutOptions) (phase : PutPhase)
  | delete (path : StorageObjectKey) (phase : DeletePhase)
  | rename (source target : StorageObjectKey) (phase : RenamePhase)

/-- The store and the calls on it. -/
structure StoreState where
  backend : LocalDiskBackend
  tasks : Table ℕ Task

def StoreState.new : StoreState := ⟨.new, ∅⟩

inductive StoreEvent where
  /-- A call comes in. -/
  | put (id : ℕ) (path : StorageObjectKey) (data : Bytes) (options : PutOptions)
  | delete (id : ℕ) (path : StorageObjectKey)
  | rename (id : ℕ) (source target : StorageObjectKey)
  /-- A call takes its next step, at some time. -/
  | proceed (id : ℕ) (now : ℕ)

section

variable (sha256 : Bytes → Digest)

/-- A step of `put`. -/
def putStep (path : StorageObjectKey) (data : Bytes) (options : PutOptions) (now : ℕ) :
    LocalDiskBackend × PutPhase → LocalDiskBackend × PutPhase
  | (b, .start) =>
      if b.blobs.contains (blobPath (contentSha256Hex sha256 data)) then (b, .stored)
      else (b, .absent)
  | (b, .absent) =>
      let (blobs, file) := b.blobs.create (tempPath (contentSha256Hex sha256 data))
      ({ b with blobs }, .created file)
  | (b, .created file) => ({ b with blobs := b.blobs.writeAll file data }, .written)
  | (b, .written) =>
      match b.blobs.rename (tempPath (contentSha256Hex sha256 data))
          (blobPath (contentSha256Hex sha256 data)) with
      | some blobs => ({ b with blobs }, .stored)
      | none => (b, .contended)
  | (b, .contended) =>
      if b.blobs.contains (blobPath (contentSha256Hex sha256 data)) then (b, .discarding)
      else (b, .done (.error (.io .notFound)))
  | (b, .discarding) =>
      ({ b with blobs := b.blobs.remove (tempPath (contentSha256Hex sha256 data)) }, .stored)
  | (b, .stored) =>
      let object := LocalDiskBackend.putMetadata sha256 path data options now
      ({ b with rows := MetadataStore.upsert b.rows object }, .done (.ok object))
  | (b, .done answer) => (b, .done answer)

/-- A step of `delete`. -/
def deleteStep (path : StorageObjectKey) :
    LocalDiskBackend × DeletePhase → LocalDiskBackend × DeletePhase
  | (b, .start) =>
      match MetadataStore.get b.rows path.path with
      | none => (b, .done (.error (.notFound path.path)))
      | some object => (b, .found object.contentSha256)
  | (b, .found sha) =>
      match MetadataStore.delete b.rows path.path with
      | (_, false) => (b, .done (.error (.notFound path.path)))
      | (rows, true) => ({ b with rows }, .rowDeleted sha)
  | (b, .rowDeleted sha) =>
      if MetadataStore.countContent b.rows sha = 0 then (b, .unreferenced sha)
      else (b, .done (.ok ()))
  | (b, .unreferenced sha) =>
      if b.blobs.contains (blobPath sha) then (b, .removing sha) else (b, .done (.ok ()))
  | (b, .removing sha) =>
      if b.blobs.contains (blobPath sha) then
        ({ b with blobs := b.blobs.remove (blobPath sha) }, .done (.ok ()))
      else (b, .done (.error (.io .notFound)))
  | (b, .done answer) => (b, .done answer)

/-- A step of `rename`. -/
def renameStep (source target : StorageObjectKey) (now : ℕ) :
    LocalDiskBackend × RenamePhase → LocalDiskBackend × RenamePhase
  | (b, .start) =>
      match MetadataStore.get b.rows source.path with
      | none => (b, .done (.error (.notFound source.path)))
      | some object => (b, .found object)
  | (b, .found object) =>
      if (MetadataStore.get b.rows target.path).isSome then
        (b, .done (.error (.alreadyExists target.path)))
      else (b, .free object)
  | (b, .free object) =>
      match MetadataStore.rename b.rows source.path target.path with
      | .error e => (b, .done (.error e))
      | .ok (_, false) => (b, .done (.error (.notFound source.path)))
      | .ok (rows, true) => ({ b with rows }, .moved object)
  | (b, .moved object) =>
      let updated := LocalDiskBackend.renamedMetadata object target now
      ({ b with rows := MetadataStore.upsert b.rows updated }, .done (.ok updated))
  | (b, .done answer) => (b, .done answer)

/-- A step of a task. -/
def taskStep (now : ℕ) (b : LocalDiskBackend) : Task → LocalDiskBackend × Task
  | .put path data options phase =>
      let (b, phase) := putStep sha256 path data options now (b, phase)
      (b, .put path data options phase)
  | .delete path phase =>
      let (b, phase) := deleteStep path (b, phase)
      (b, .delete path phase)
  | .rename source target phase =>
      let (b, phase) := renameStep source target now (b, phase)
      (b, .rename source target phase)

/-- A call that comes in under an identifier that is taken is not a call. -/
def StoreState.arrive (s : StoreState) (id : ℕ) (task : Task) : StoreState :=
  if (s.tasks.lookup id).isSome then s else { s with tasks := s.tasks.insert id task }

def storeStep (s : StoreState) : StoreEvent → StoreState
  | .put id path data options => s.arrive id (.put path data options .start)
  | .delete id path => s.arrive id (.delete path .start)
  | .rename id source target => s.arrive id (.rename source target .start)
  | .proceed id now =>
      match s.tasks.lookup id with
      | none => s
      | some task =>
          let (b, task) := taskStep sha256 now s.backend task
          ⟨b, s.tasks.insert id task⟩

/-! ## Tasks that are left alone -/

theorem putStep_iterate (b : LocalDiskBackend) (path : StorageObjectKey) (data : Bytes)
    (options : PutOptions) (now : ℕ) :
    (putStep sha256 path data options now)^[7] (b, .start) =
      ((b.put sha256 path data options now).1, .done (b.put sha256 path data options now).2) := by
  rcases hthere : b.blobs.contains (blobPath (contentSha256Hex sha256 data)) with _ | _
  · obtain ⟨blobs, hrename, -⟩ := b.blobs.exists_rename_of_create
      (tempPath (contentSha256Hex sha256 data)) (blobPath (contentSha256Hex sha256 data)) data
    simp [putStep, LocalDiskBackend.put, LocalDiskBackend.writeBlob, hthere, hrename]
  · simp [putStep, LocalDiskBackend.put, LocalDiskBackend.writeBlob, hthere]

theorem deleteStep_iterate (b : LocalDiskBackend) (path : StorageObjectKey) :
    (deleteStep path)^[5] (b, .start) = ((b.delete path).1, .done (b.delete path).2) := by
  rcases hrow : b.rows.lookup path.path with _ | row
  · simp [deleteStep, LocalDiskBackend.delete, MetadataStore.get, hrow]
  · by_cases hcount : MetadataStore.countContent (b.rows.erase path.path) row.contentSha256 = 0
    · rcases hthere : b.blobs.contains (blobPath row.contentSha256) with _ | _ <;>
        simp [deleteStep, LocalDiskBackend.delete, MetadataStore.get, MetadataStore.delete, hrow,
          rowToMetadata, LocalDiskBackend.deleteBlobIfUnreferenced, hcount, hthere]
    · simp [deleteStep, LocalDiskBackend.delete, MetadataStore.get, MetadataStore.delete, hrow,
        rowToMetadata, LocalDiskBackend.deleteBlobIfUnreferenced, hcount]

theorem renameStep_iterate (b : LocalDiskBackend) (source target : StorageObjectKey) (now : ℕ) :
    (renameStep source target now)^[4] (b, .start) =
      ((b.rename source target now).1, .done (b.rename source target now).2) := by
  rcases hrow : b.rows.lookup source.path with _ | row
  · simp [renameStep, LocalDiskBackend.rename, MetadataStore.get, hrow]
  · rcases hfree : b.rows.lookup target.path with _ | row'
    · have hrename := MetadataStore.rename_of_free hrow hfree
      simp [renameStep, LocalDiskBackend.rename, MetadataStore.get, hrow, hfree, hrename]
    · simp [renameStep, LocalDiskBackend.rename, MetadataStore.get, hrow, hfree]

end

end DiskArcana.Storage
