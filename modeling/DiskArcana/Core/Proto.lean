import DiskArcana.Core.Types

/-!
# Wire messages

The messages of `disk-proto` that a sync cycle exchanges, and their conversion to and from the
domain records. On the wire a hash is any byte string and an absent field is a default value, so
the conversion to `FileMeta` is where a malformed hash becomes the all-zero digest.
-/

namespace DiskArcana.Core

/-- File metadata on the wire.
Source: `proto/disk.proto`, `FileMetadata` -/
structure FileMetadata where
  path : Path
  contentHash : Bytes := []
  size : ℕ := 0
  mtimeNs : ℤ := 0
  inode : ℕ := 0
  vectorClock : VectorClock := .new
  deleted : Bool := false
  deletedAt : ℤ := 0
  nodeId : NodeId := ""
  encryptionNonce : Bytes := []
  versionId : ℕ := 0
  parentVersionId : ℕ := 0
  deriving DecidableEq

/-- A conflict as reported to the client: `local` is the client's entry, `remote` the server's.
Source: `proto/disk.proto`, `ConflictReport` -/
structure ConflictMessage where
  path : Path
  localFile : Option FileMetadata
  remoteFile : Option FileMetadata
  suggestedResolution : String
  deriving DecidableEq

/-- The server's answer to a state exchange.
Source: `proto/disk.proto`, `SyncStateResponse` -/
structure SyncStateResponse where
  toUpload : List FileMetadata
  toDownload : List FileMetadata
  toDelete : List FileMetadata
  conflicts : List ConflictMessage
  serverClock : VectorClock
  deriving DecidableEq

/-- A wire hash as a digest; anything but 32 bytes is the all-zero digest. -/
def digestOfBytes (b : Bytes) : Digest := if h : b.length = 32 then ⟨b, h⟩ else zeroDigest

@[simp] theorem digestOfBytes_toList (d : Digest) : digestOfBytes d.toList = d :=
  dif_pos d.toList_length

/-- Source: `services/sync.rs`, `proto_to_file_meta` -/
def protoToFileMeta (m : FileMetadata) : FileMeta where
  path := m.path
  contentHash := digestOfBytes m.contentHash
  size := m.size
  mtimeNs := m.mtimeNs
  inode := if m.inode = 0 then none else some m.inode
  vectorClock := m.vectorClock
  deleted := m.deleted
  deletedAt := if m.deletedAt = 0 then none else some m.deletedAt
  nodeId := m.nodeId
  encryptionNonce := if m.encryptionNonce.isEmpty then none else some m.encryptionNonce
  versionId := if m.versionId = 0 then none else some m.versionId
  parentVersionId := if m.parentVersionId = 0 then none else some m.parentVersionId

/-- Source: `services/sync.rs`, `file_meta_to_proto` -/
def fileMetaToProto (m : FileMeta) : FileMetadata where
  path := m.path
  contentHash := m.contentHash.toList
  size := m.size
  mtimeNs := m.mtimeNs
  inode := m.inode.getD 0
  vectorClock := m.vectorClock
  deleted := m.deleted
  deletedAt := m.deletedAt.getD 0
  nodeId := m.nodeId
  encryptionNonce := m.encryptionNonce.getD []
  versionId := m.versionId.getD 0
  parentVersionId := m.parentVersionId.getD 0

@[simp] theorem fileMetaToProto_path (m : FileMeta) : (fileMetaToProto m).path = m.path := rfl

end DiskArcana.Core
