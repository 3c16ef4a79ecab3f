import Mathlib.Data.String.Basic
import Mathlib.Data.Vector.Basic
import DiskArcana.Core.VectorClock

/-!
# Core value types of the sync engine

The records of `disk-core/src/types.rs`. A path is the list of components that `Path::components`
yields (`PathBuf` compares by components, so two spellings of one path are one key here), a
content hash is a 32-byte array, and `u64`/`i64` fields that no function here can overflow are
naturals and integers.

`Side` is the abstraction the reconciler works on: what one snapshot shows at a path, namely nothing,
a live file or a tombstone.
-/

namespace DiskArcana.Core

open DiskArcana.Lib

/-- A vault-relative path, as its components. -/
abbrev Path := List String

/-- A table keyed by path. -/
abbrev PathMap (α : Type) := Table Path α

/-- A blake3 digest, `[u8; 32]`. -/
abbrev Digest := List.Vector UInt8 32

/-- File contents. -/
abbrev Bytes := List UInt8

/-- Stable identifier of a sync node.
Source: `types.rs`, `NodeId` -/
abbrev NodeId := String

/-- The all-zero digest: what a malformed wire hash decodes to, and what the download check
treats as a placeholder. -/
def zeroDigest : Digest := List.Vector.replicate 32 0

/-- Snapshot of one file as recorded by the scanner or the metadata store.
Source: `types.rs`, `FileMeta` -/
structure FileMeta where
  path : Path
  contentHash : Digest
  size : ℕ
  mtimeNs : ℤ
  inode : Option ℕ
  vectorClock : VectorClock
  /-- Tombstone marker. -/
  deleted : Bool
  deletedAt : Option ℤ
  /-- Last writer. -/
  nodeId : NodeId
  encryptionNonce : Option Bytes
  versionId : Option ℕ
  parentVersionId : Option ℕ
  deriving DecidableEq

/-- Outcome classifications for a single path.
Source: `types.rs`, `ActionType` -/
inductive ActionType where
  | skip
  | upload
  | download
  | deleteLocal
  | deleteRemote
  | conflictFork
  | conflictMerge
  | renameRemote
  | renameLocal
  deriving DecidableEq, Repr

/-- Type of conflict observed.
Source: `types.rs`, `ConflictKind` -/
inductive ConflictKind where
  | concurrent
  | modifiedDeleted
  | renameRename
  | dirDeleteChildModify
  deriving DecidableEq, Repr

/-- Diagnostic payload of a conflict.
Source: `types.rs`, `ConflictReport` -/
structure ConflictReport where
  kind : ConflictKind
  localHash : Option Digest
  remoteHash : Option Digest
  baseHash : Option Digest
  deriving DecidableEq

/-- Action emitted by the reconciler for one path.
Source: `types.rs`, `SyncAction` -/
structure SyncAction where
  path : Path
  action : ActionType
  /-- Remote-side metadata. -/
  serverVersion : Option FileMeta
  conflict : Option ConflictReport
  renameTo : Option Path
  deriving DecidableEq

/-- Persisted conflict row.
Source: `types.rs`, `ConflictRecord` -/
structure ConflictRecord where
  vaultId : String
  path : Path
  conflictType : String
  localHash : Option Digest
  remoteHash : Option Digest
  baseHash : Option Digest
  resolution : Option String
  forkPath : Option Path
  resolved : Bool
  createdAt : ℤ
  resolvedAt : Option ℤ
  deriving DecidableEq

/-! ## What a snapshot shows at a path -/

/-! ## Writes -/

/-- What becomes of the bytes that are written to a file, which is truncated first.
Source: `std::fs::write` -/
inductive WriteAnswer where
  /-- The file cannot be opened. -/
  | refused
  /-- It is truncated, and the write fails after some bytes. -/
  | cut (n : ℕ)
  | done

def WriteAnswer.isDone : WriteAnswer → Bool
  | .done => true
  | _ => false

/-- What a write leaves in the file, if it opens it. -/
def WriteAnswer.left (bytes : Bytes) : WriteAnswer → Option Bytes
  | .refused => none
  | .cut n => some (bytes.take n)
  | .done => some bytes

/-- The files after a write to a place. -/
def WriteAnswer.writeTo {κ : Type} [DecidableEq κ] (files : Table κ Bytes) (key : κ) (bytes : Bytes) :
    WriteAnswer → Table κ Bytes
  | .refused => files
  | .cut n => files.insert key (bytes.take n)
  | .done => files.insert key bytes

theorem WriteAnswer.lookup_writeTo {κ : Type} [DecidableEq κ] (a : WriteAnswer) (files : Table κ Bytes)
    (key k : κ) (bytes : Bytes) :
    (a.writeTo files key bytes).lookup k =
      (if key = k then a.left bytes else none).or (files.lookup k) := by
  have hinsert : ∀ content : Bytes, (files.insert key content).lookup k =
      (if key = k then some content else none).or (files.lookup k) := by
    intro content
    rw [Table.lookup_insert_eq_ite]
    by_cases h : key = k
    · simp [h]
    · simp [h, Ne.symm h]
  cases a with
  | refused => simp [writeTo, left]
  | cut n => exact hinsert (bytes.take n)
  | done => exact hinsert bytes

/-- What a write leaves is a part of the bytes, and all of them if it is done. -/
theorem WriteAnswer.of_left {a : WriteAnswer} {bytes content : Bytes} (h : a.left bytes = some content) :
    content <+: bytes ∧ (a.isDone = true → content = bytes) := by
  cases a with
  | refused => cases h
  | cut n =>
      cases h
      exact ⟨List.take_prefix n bytes, fun hdone => nomatch hdone⟩
  | done =>
      cases h
      exact ⟨List.prefix_rfl, fun _ => rfl⟩

/-! ## Sides -/

/-- What one side shows at a path. -/
inductive Side where
  | absent
  | live
  | tomb
  deriving DecidableEq, Repr

/-- The side an entry shows: `None` means never observed, `deleted` a tombstone. -/
def side : Option FileMeta → Side
  | none => .absent
  | some m => if m.deleted then .tomb else .live

/-- The content hash of a live entry. -/
def liveHash : Option FileMeta → Option Digest
  | none => none
  | some m => if m.deleted then none else some m.contentHash

@[simp] theorem side_none : side none = .absent := rfl

@[simp] theorem liveHash_none : liveHash none = none := rfl

theorem side_some_of_live {m : FileMeta} (h : m.deleted = false) : side (some m) = .live := by
  simp [side, h]

theorem side_some_of_tomb {m : FileMeta} (h : m.deleted = true) : side (some m) = .tomb := by
  simp [side, h]

/-- A live side is an entry that is not a tombstone. -/
theorem side_eq_live_iff {o : Option FileMeta} :
    side o = .live ↔ ∃ m, o = some m ∧ m.deleted = false := by
  rcases o with _ | m
  · simp
  · rcases h : m.deleted with _ | _ <;> simp [side, h]

/-- A tombstoned side is an entry with the deleted flag. -/
theorem side_eq_tomb_iff {o : Option FileMeta} :
    side o = .tomb ↔ ∃ m, o = some m ∧ m.deleted = true := by
  rcases o with _ | m
  · simp
  · rcases h : m.deleted with _ | _ <;> simp [side, h]

/-- A tombstone has no live content. -/
theorem liveHash_eq_none_of_tomb {o : Option FileMeta} (h : side o = .tomb) : liveHash o = none := by
  obtain ⟨m, rfl, hd⟩ := side_eq_tomb_iff.mp h
  simp [liveHash, hd]

/-- An absent side is no entry. -/
theorem side_eq_absent_iff {o : Option FileMeta} : side o = .absent ↔ o = none := by
  rcases o with _ | m
  · simp
  · rcases h : m.deleted with _ | _ <;> simp [side, h]

/-- The live hash is that of an entry that is not a tombstone. -/
theorem liveHash_eq_some_iff {o : Option FileMeta} {h : Digest} :
    liveHash o = some h ↔ ∃ m, o = some m ∧ m.deleted = false ∧ m.contentHash = h := by
  rcases o with _ | m
  · simp
  · rcases hd : m.deleted with _ | _ <;> simp [liveHash, hd]

/-- A side is live exactly when it has a live hash. -/
theorem side_eq_live_iff_liveHash {o : Option FileMeta} :
    side o = .live ↔ ∃ h, liveHash o = some h := by
  rcases o with _ | m
  · simp
  · rcases hd : m.deleted with _ | _ <;> simp [side, liveHash, hd]

end DiskArcana.Core
