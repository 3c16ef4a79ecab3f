import DiskArcana.Server.Exchange

/-!
# Transfers, restores and the share index

The server operations besides `exchange_state` that write file rows or bytes: `delta_upload`
(`services/sync.rs`), the trash, version and snapshot restores (`trash/routes.rs`,
`versions/routes.rs`, `snapshots/routes.rs`) and the share indexer (`share_index/mod.rs`).

`blake3` is the hash function of the `blake3` crate. Times, inode numbers and the outcome of the
quota check come in with each call. Directory trees hold regular files only: there are no
symbolic links below a root.
-/

namespace DiskArcana.Server

open DiskArcana.Core DiskArcana.Lib

/-- The state of the server for one share. -/
structure SyncServer where
  vaultId : String
  serverNodeId : NodeId
  db : MetaDb
  /-- The files under the root the share is served from. -/
  shareTree : PathMap Bytes
  /-- The files under `sync_root`, when the share has a root of its own. -/
  syncTree : PathMap Bytes
  /-- The share has a root of its own in `share_roots`. -/
  ownRoot : Bool
  /-- The content-addressed store of superseded bytes. -/
  versionBlobs : Table Digest Bytes

/-- Roles that may upload.
Source: `services/sync.rs`, `WRITE_ROLES` -/
def writeRoles : List EnforcedRole := [.bidirectional, .sendOnly, .publisher]

/-- Roles that may download.
Source: `services/sync.rs`, `READ_ROLES` -/
def readRoles : List EnforcedRole := [.bidirectional, .receiveOnly]

/-- The access check; no resolved role means no restriction.
Source: `services/sync.rs`, `check_acl_by_cert` -/
def checkAcl (role : Option EnforcedRole) (allowed : List EnforcedRole) : Bool :=
  role.all fun r => allowed.contains r

/-- The guard on a requested path, over a root without symbolic links: no NUL, no `..`, relative,
at most 4096 bytes.
Source: `path_guard.rs`, `validate` -/
def validatePath (path : Path) : Except String Path :=
  if path.any fun c => c.toList.contains '\x00' then .error "path guard: null byte"
  else if path.contains ".." then .error "path guard: relative path with '..'"
  else if path.contains "/" then .error "path guard: outside root"
  else if 4096 < (pathString path).utf8ByteSize then .error "path guard: path too long"
  else .ok (path.filter fun c => c != ".")

/-- Store bytes under a hash when it has none yet.
Source: `content_store.rs`, `put` -/
def putBlob (blobs : Table Digest Bytes) (hash : Digest) (bytes : Bytes) : Table Digest Bytes :=
  match blobs.lookup hash with
  | some _ => blobs
  | none => blobs.insert hash bytes

section

variable (blake3 : Bytes → Digest)

/-! ## Uploads and downloads -/

/-- A chunk of an upload stream.
Source: `proto/disk.proto`, `DeltaChunk` -/
structure DeltaChunk where
  data : Bytes
  strongHash : Bytes

/-- A message of an upload stream.
Source: `proto/disk.proto`, `DeltaUploadRequest` -/
structure DeltaUploadRequest where
  path : Path
  contentHash : Bytes
  chunks : List DeltaChunk

/-- An upload: the caller, its stream, what the environment answers (quota), and the times that end
up in the row. -/
structure UploadCall where
  nodeId : NodeId
  role : Option EnforcedRole
  includes : List String
  stream : List DeltaUploadRequest
  quotaOk : Bool
  retention : MetaDb.VersionRetention
  mtimeNs : ℤ
  now : ℤ

/-- A chunk passes its integrity check; one without a 32-byte hash is not checked.
Source: `services/sync.rs`, `delta_upload` -/
def chunkOk (c : DeltaChunk) : Bool :=
  c.strongHash.length != 32 || decide (c.strongHash = (blake3 c.data).toList)

/-- The check of the finished upload against the announced hash; an empty one is not checked.
Source: `services/sync.rs`, `delta_upload` -/
def checkContentHash (expected : Bytes) (resulting : Digest) : Except String Unit :=
  if expected.isEmpty then .ok ()
  else if expected.length ≠ 32 then .error "invalid content_hash length"
  else if expected = resulting.toList then .ok ()
  else .error "content_hash mismatch"

/-- The row entry of a committed upload: a fresh clock with one tick of the server. -/
def uploadedMeta (serverNodeId : NodeId) (target : Path) (hash : Digest) (size : ℕ) (mtimeNs : ℤ) :
    FileMeta where
  path := target
  contentHash := hash
  size := size
  mtimeNs := mtimeNs
  inode := none
  vectorClock := VectorClock.new.advance serverNodeId
  deleted := false
  deletedAt := none
  nodeId := serverNodeId
  encryptionNonce := none
  versionId := none
  parentVersionId := none

/-- Archive the superseded bytes of a path under the hash of its row. -/
def archive (s : SyncServer) (tree : PathMap Bytes) (target : Path) : Table Digest Bytes :=
  match tree.lookup target, s.db.getFileScoped target with
  | some oldBytes, some oldMeta => putBlob s.versionBlobs oldMeta.contentHash oldBytes
  | _, _ => s.versionBlobs

/-- Commit staged bytes: archive, rename into place, then upsert the row; a failed upsert is not
fatal.
Source: `services/sync.rs`, `delta_upload` -/
def commitUpload (s : SyncServer) (target : Path) (bytes : Bytes) (c : UploadCall) : SyncServer :=
  let m := uploadedMeta s.serverNodeId target (blake3 bytes) bytes.length c.mtimeNs
  { s with
    versionBlobs := archive s s.shareTree target
    shareTree := s.shareTree.insert target bytes
    db := (s.db.upsertFileScopedVersioned m ⟨s.serverNodeId, c.retention⟩ c.now).getD s.db }

/-- Receive an upload stream and commit it.
Source: `services/sync.rs`, `delta_upload` -/
def deltaUpload (s : SyncServer) (c : UploadCall) : Except String SyncServer := do
  if !checkAcl c.role writeRoles then throw "ACL role mismatch"
  match c.stream with
  | [] => return s
  | first :: _ =>
    if !pathMatchesIncludes (pathString first.path) c.includes then
      throw "path outside selective sync includes"
    let target ← validatePath first.path
    let chunks := c.stream.flatMap DeltaUploadRequest.chunks
    if !chunks.all (chunkOk blake3) then throw "chunk integrity failure (T-Tampering)"
    let bytes := chunks.flatMap DeltaChunk.data
    checkContentHash first.contentHash (blake3 bytes)
    if !c.quotaOk then throw "storage quota exceeded"
    return commitUpload blake3 s target bytes c

/-- The bytes served for a download.
Source: `services/sync.rs`, `delta_download` -/
def deltaDownload (s : SyncServer) (role : Option EnforcedRole) (includes : List String) (path : Path) :
    Except String Bytes := do
  if !checkAcl role readRoles then throw "ACL role mismatch"
  if !pathMatchesIncludes (pathString path) includes then
    throw "path outside selective sync includes"
  let target ← validatePath path
  match s.shareTree.lookup target with
  | some data => return data
  | none => throw "file not found"

/-! ## Restores -/

/-- The tree the restore handlers write to: always `sync_root`. -/
def restoreTree (s : SyncServer) : PathMap Bytes := if s.ownRoot then s.syncTree else s.shareTree

/-- Write restored bytes. -/
def withRestored (s : SyncServer) (target : Path) (bytes : Bytes) : SyncServer :=
  if s.ownRoot then { s with syncTree := s.syncTree.insert target bytes }
  else { s with shareTree := s.shareTree.insert target bytes }

/-- Paths the restore handlers refuse: empty, or with two dots in a row anywhere.
Source: `trash/routes.rs` and `versions/routes.rs`, `normalize_rel_path` -/
def refusesPath (path : Path) : Bool :=
  let cs := (pathString path).toList
  cs.isEmpty || (cs.zip cs.tail).contains ('.', '.')

/-- The row entry of a restored file, its clock ticked once by the restoring facility. -/
def restoredMeta (facility : String) (target : Path) (hash : Digest) (size : ℕ)
    (nonce : Option Bytes) (mtimeNs : ℤ) : FileMeta where
  path := target
  contentHash := hash
  size := size
  mtimeNs := mtimeNs
  inode := none
  vectorClock := VectorClock.new.advance facility
  deleted := false
  deletedAt := none
  nodeId := facility
  encryptionNonce := nonce
  versionId := none
  parentVersionId := none

/-- The user, retention and times of a restore. -/
structure RestoreCall where
  user : String
  retention : MetaDb.VersionRetention
  mtimeNs : ℤ
  now : ℤ

/-- The bytes behind a recorded revision: its blob, the blob of its version row, or a file on disk
that still has the right hash.
Source: `trash/routes.rs`, `resolve_trash_blob`; `snapshots/routes.rs`, `resolve_blob` -/
def resolveBlob (s : SyncServer) (path : Path) (hash : Digest) (versionId : Option ℕ) : Option Bytes :=
  (s.versionBlobs.lookup hash).or <|
    ((versionId.bind (s.db.getFileVersion path)).bind fun v =>
      s.versionBlobs.lookup v.contentHash).or <|
    ((restoreTree s).lookup path).filter fun bytes => decide (blake3 bytes = hash)

/-- Write restored bytes and their row; a failed upsert is an error after the bytes are
written. -/
def commitRestore (s : SyncServer) (m : FileMeta) (bytes : Bytes) (c : RestoreCall) : SyncServer × Bool :=
  let s := withRestored s m.path bytes
  match s.db.upsertFileScopedVersioned m ⟨c.user, c.retention⟩ c.now with
  | some db => ({ s with db := db, versionBlobs := putBlob s.versionBlobs m.contentHash bytes }, true)
  | none => (s, false)

/-- Restore a trashed file.
Source: `trash/routes.rs`, `restore_trash_inner` -/
def restoreTrash (s : SyncServer) (path : Path) (c : RestoreCall) : SyncServer :=
  match s.db.getFileScoped path with
  | none => s
  | some trashed =>
    if refusesPath path || !trashed.deleted then s
    else match resolveBlob blake3 s path trashed.contentHash trashed.versionId, validatePath path with
      | some bytes, .ok target =>
        (commitRestore s (restoredMeta "trash-restore" target trashed.contentHash trashed.size
          trashed.encryptionNonce c.mtimeNs) bytes c).1
      | _, _ => s

/-- Restore a recorded revision.
Source: `versions/routes.rs`, `restore_version_inner` -/
def restoreVersion (s : SyncServer) (path : Path) (versionId : ℕ) (c : RestoreCall) : SyncServer :=
  let live := s.db.getFileScoped path
  if refusesPath path || live.any fun m => m.versionId == some versionId then s
  else match s.db.getFileVersion path versionId with
    | none => s
    | some version =>
      match s.versionBlobs.lookup version.contentHash, validatePath path with
      | some bytes, .ok target =>
        if live.any fun m => !m.deleted && decide (m.contentHash = version.contentHash) then s
        else
          (commitRestore { s with versionBlobs := archive s (restoreTree s) target }
            (restoredMeta "dashboard-restore" target version.contentHash version.size none c.mtimeNs)
            bytes c).1
      | _, _ => s

/-- A file of a stored snapshot.
Source: `meta_db/snapshots.rs`, `VaultSnapshotFileRow` -/
structure SnapshotFile where
  path : Path
  contentHash : Digest
  size : ℕ
  versionId : ℕ
  deleted : Bool

/-- One turn of the loop over the files of a snapshot.
Source: `snapshots/routes.rs`, `restore_snapshot_inner` -/
def restoreSnapshotFile (s : SyncServer) (entry : SnapshotFile) (c : RestoreCall) : SyncServer :=
  if entry.deleted || refusesPath entry.path then s
  else match resolveBlob blake3 s entry.path entry.contentHash
      (if entry.versionId = 0 then none else some entry.versionId), validatePath entry.path with
    | some bytes, .ok target =>
      (commitRestore { s with versionBlobs := archive s (restoreTree s) target }
        (restoredMeta "snapshot-restore" target entry.contentHash entry.size none c.mtimeNs)
        bytes c).1
    | _, _ => s

/-- Restore the files of a snapshot one by one; a file that fails is left as it is.
Source: `snapshots/routes.rs`, `restore_snapshot_inner` -/
def restoreSnapshot (s : SyncServer) (files : List SnapshotFile) (c : RestoreCall) : SyncServer :=
  files.foldl (fun s entry => restoreSnapshotFile blake3 s entry c) s

/-! ## The share index -/

/-- Directory names the server itself writes inside a share root.
Source: `share_index/mod.rs`, `INTERNAL_DIR_NAMES` -/
def internalDirNames : List String := [".version-blobs"]

/-- The path lies inside one of the server's internal directories.
Source: `share_index/mod.rs`, `is_internal_path` -/
def isInternalPath (rel : Path) : Bool :=
  rel.any fun name => isNormal name && internalDirNames.contains name

/-- The inode and modification time `stat` gives for an indexed file. -/
structure FileStat where
  inode : Option ℕ
  mtimeNs : ℤ

/-- The row entry of an indexed file: an empty clock. -/
def indexedMeta (nodeId : NodeId) (rel : Path) (bytes : Bytes) (stat : FileStat) : FileMeta where
  path := rel
  contentHash := blake3 bytes
  size := bytes.length
  mtimeNs := stat.mtimeNs
  inode := stat.inode
  vectorClock := .new
  deleted := false
  deletedAt := none
  nodeId := nodeId
  encryptionNonce := none
  versionId := none
  parentVersionId := none

/-- Index a file that is on disk.
Source: `share_index/mod.rs`, `upsert_local_file` -/
def upsertLocalFile (s : SyncServer) (rel : Path) (stat : FileStat) : SyncServer :=
  match s.shareTree.lookup rel with
  | none => s
  | some bytes =>
    if rel.isEmpty then s
    else { s with db := s.db.upsertFileScoped (indexedMeta blake3 s.serverNodeId rel bytes stat) }

/-- The tombstone made up for a path without a row. -/
def missingTombstone (nodeId : NodeId) (rel : Path) (now : ℤ) : FileMeta where
  path := rel
  contentHash := zeroDigest
  size := 0
  mtimeNs := 0
  inode := none
  vectorClock := .new
  deleted := true
  deletedAt := some now
  nodeId := nodeId
  encryptionNonce := none
  versionId := none
  parentVersionId := none

/-- Tombstone the row of a path, making one up when there is none.
Source: `share_index/mod.rs`, `tombstone_local_file` -/
def tombstoneLocalFile (s : SyncServer) (rel : Path) (now : ℤ) : SyncServer :=
  if rel.isEmpty then s
  else match s.db.getFileScoped rel with
    | some row => { s with db := s.db.upsertFileScoped (tombstone now row) }
    | none => { s with db := s.db.upsertFileScoped (missingTombstone s.serverNodeId rel now) }

/-- Source: `share_index/mod.rs`, `IndexEventKind` -/
inductive IndexEventKind where
  | upsert
  | tombstone
  deriving DecidableEq

/-- Process one watcher event; a remove event for a file that is present is an upsert.
Source: `share_index/mod.rs`, `run_index_loop` -/
def indexEvent (s : SyncServer) (kind : IndexEventKind) (rel : Path) (stat : FileStat) (now : ℤ) :
    SyncServer :=
  if isInternalPath rel then s
  else match kind with
    | .upsert => upsertLocalFile blake3 s rel stat
    | .tombstone =>
      if (s.shareTree.lookup rel).isSome then upsertLocalFile blake3 s rel stat
      else tombstoneLocalFile s rel now

/-- Re-index the whole tree, then tombstone the rows whose file is gone.
Source: `share_index/mod.rs`, `full_reconcile` -/
def fullReconcile (s : SyncServer) (stat : Path → FileStat) (now : ℤ) : SyncServer :=
  let seen := (s.shareTree.keys.filter fun rel => !isInternalPath rel)
  let tracked := s.db.listFilesScoped
  let s := seen.foldl (fun s rel => upsertLocalFile blake3 s rel (stat rel)) s
  tracked.foldl (fun s m =>
    if m.deleted || seen.contains m.path || (s.shareTree.lookup m.path).isSome then s
    else tombstoneLocalFile s m.path now) s

/-! ## What the operations do to rows and baselines -/

/-- The bytes an upload carries. -/
def uploadBytes (c : UploadCall) : Bytes :=
  (c.stream.flatMap DeltaUploadRequest.chunks).flatMap DeltaChunk.data

/-- **What a successful upload is**: an empty stream that changes nothing, or a permitted, included
and well-formed path whose bytes are committed. -/
theorem of_deltaUpload {s s' : SyncServer} {c : UploadCall}
    (h : deltaUpload blake3 s c = .ok s') :
    (c.stream = [] ∧ s' = s) ∨
      ∃ first rest target, c.stream = first :: rest ∧ checkAcl c.role writeRoles = true ∧
        pathMatchesIncludes (pathString first.path) c.includes = true ∧
        validatePath first.path = .ok target ∧
        s' = commitUpload blake3 s target (uploadBytes c) c := by
  unfold deltaUpload at h
  rcases hacl : checkAcl c.role writeRoles with _ | _
  · simp only [hacl, Bool.not_false, if_true] at h
    cases h
  rcases hs : c.stream with _ | ⟨first, rest⟩
  · simp only [hacl, hs, Bool.not_true] at h
    cases h
    exact Or.inl ⟨rfl, rfl⟩
  refine Or.inr ⟨first, rest, ?_⟩
  simp only [hacl, hs, Bool.not_true] at h
  rcases hinc : pathMatchesIncludes (pathString first.path) c.includes with _ | _
  · simp only [hinc, Bool.not_false, if_true] at h
    cases h
  rcases hv : validatePath first.path with e | target
  · simp only [hinc, hv, Bool.not_true] at h
    cases h
  refine ⟨target, rfl, rfl, rfl, rfl, ?_⟩
  simp only [hinc, hv, Bool.not_true] at h
  rcases hc : ((first :: rest).flatMap DeltaUploadRequest.chunks).all (chunkOk blake3) with _ | _
  · simp only [hc, Bool.not_false] at h
    cases h
  rcases hh : checkContentHash first.contentHash
      (blake3 (((first :: rest).flatMap DeltaUploadRequest.chunks).flatMap DeltaChunk.data)) with e | u
  · simp only [hc, hh, Bool.not_true] at h
    cases h
  rcases hq : c.quotaOk with _ | _
  · simp only [hc, hh, hq, Bool.not_true, Bool.not_false] at h
    cases h
  simp only [hc, hh, hq, Bool.not_true] at h
  cases h
  unfold uploadBytes
  rw [hs]

/-- Every row is kept or is now one that `P` allows at its path, and every baseline is kept. All
operations but `exchange_state` and the purges do this and nothing more. -/
structure RowsWritten (P : Path → FileRow → Prop) (s s' : SyncServer) : Prop where
  rows : ∀ path, s'.db.files.lookup path = s.db.files.lookup path ∨
    ∃ row, s'.db.files.lookup path = some row ∧ P path row
  baselines : s'.db.nodeBaselines = s.db.nodeBaselines

theorem RowsWritten.of_db_eq {P : Path → FileRow → Prop} {s s' : SyncServer} (h : s'.db = s.db) :
    RowsWritten P s s' :=
  ⟨fun _ => Or.inl (by rw [h]), by rw [h]⟩

theorem RowsWritten.refl {P : Path → FileRow → Prop} (s : SyncServer) : RowsWritten P s s :=
  RowsWritten.of_db_eq rfl

theorem RowsWritten.trans {P : Path → FileRow → Prop} {s₁ s₂ s₃ : SyncServer}
    (h₁ : RowsWritten P s₁ s₂) (h₂ : RowsWritten P s₂ s₃) : RowsWritten P s₁ s₃ where
  rows path := by
    rcases h₂.rows path with h | h
    · rw [h]
      exact h₁.rows path
    · exact Or.inr h
  baselines := h₂.baselines.trans h₁.baselines

theorem RowsWritten.mono {P Q : Path → FileRow → Prop} {s s' : SyncServer}
    (h : RowsWritten P s s') (hPQ : ∀ path row, P path row → Q path row) : RowsWritten Q s s' where
  rows path := (h.rows path).imp_right fun ⟨row, hrow, hP⟩ => ⟨row, hrow, hPQ path row hP⟩
  baselines := h.baselines

/-- Writing one row. -/
theorem RowsWritten.of_insert {P : Path → FileRow → Prop} {s s' : SyncServer} {path : Path}
    {row : FileRow} (hf : s'.db.files = s.db.files.insert path row) (hP : P path row)
    (hb : s'.db.nodeBaselines = s.db.nodeBaselines) : RowsWritten P s s' where
  rows p := by
    rw [hf, Table.lookup_insert_eq_ite]
    split_ifs with hp
    · rw [hp]
      exact Or.inr ⟨row, rfl, hP⟩
    · exact Or.inl rfl
  baselines := hb

/-- A fold of operations that write allowed rows writes allowed rows. -/
theorem RowsWritten.foldl {α : Type} {P : Path → FileRow → Prop} {op : SyncServer → α → SyncServer}
    {l : List α} (hop : ∀ s, ∀ a ∈ l, RowsWritten P s (op s a)) (s : SyncServer) :
    RowsWritten P s (l.foldl op s) := by
  induction l generalizing s with
  | nil => exact RowsWritten.refl s
  | cons a l ih =>
      have hhead := hop s a List.mem_cons_self
      exact hhead.trans (ih (fun s b hb => hop s b (List.mem_cons_of_mem a hb)) _)

/-- The store after a committed upload: the upserted one, or the old one when the upsert fails. -/
theorem commitUpload_db (s : SyncServer) (target : Path) (bytes : Bytes) (c : UploadCall) :
    (commitUpload blake3 s target bytes c).db = s.db ∨
      s.db.upsertFileScopedVersioned (uploadedMeta s.serverNodeId target (blake3 bytes) bytes.length
        c.mtimeNs) ⟨s.serverNodeId, c.retention⟩ c.now =
        some (commitUpload blake3 s target bytes c).db := by
  have hdb : (commitUpload blake3 s target bytes c).db =
      (s.db.upsertFileScopedVersioned (uploadedMeta s.serverNodeId target (blake3 bytes)
        bytes.length c.mtimeNs) ⟨s.serverNodeId, c.retention⟩ c.now).getD s.db := rfl
  rw [hdb]
  rcases s.db.upsertFileScopedVersioned _ _ _ with _ | db
  · exact Or.inl rfl
  · exact Or.inr rfl

/-- A row that an upload can leave behind: live at the target of the stream, with the hash of the
bytes and a fresh clock. -/
def UploadedRow (serverNodeId : NodeId) (c : UploadCall) (path : Path) (row : FileRow) : Prop :=
  (∃ first ∈ c.stream.head?, validatePath first.path = .ok path) ∧ row.deleted = false ∧
    row.contentHash = blake3 (uploadBytes c) ∧
    row.vectorClock = VectorClock.new.advance serverNodeId

/-- **The rows after an upload**: the row of the target, or no row when the upsert fails. -/
theorem deltaUpload_rows {s s' : SyncServer} {c : UploadCall}
    (h : deltaUpload blake3 s c = .ok s') :
    RowsWritten (UploadedRow blake3 s.serverNodeId c) s s' := by
  rcases of_deltaUpload blake3 h with ⟨-, rfl⟩ | ⟨first, _, target, hs, -, -, hv, rfl⟩
  · exact RowsWritten.refl _
  rcases commitUpload_db blake3 s target (uploadBytes c) c with hdb | hdb
  · exact RowsWritten.of_db_eq hdb
  · obtain ⟨⟨v, pv, hf⟩, hb⟩ := MetaDb.of_upsertFileScopedVersioned hdb
    exact RowsWritten.of_insert hf ⟨⟨first, by rw [hs]; rfl, hv⟩, rfl, rfl, rfl⟩ hb

theorem withRestored_db (s : SyncServer) (target : Path) (bytes : Bytes) :
    (withRestored s target bytes).db = s.db := by
  unfold withRestored
  split_ifs <;> rfl

/-- A row that restoring a path can leave behind: live at the target of the path. -/
def RestoredRow (source : Path) (path : Path) (row : FileRow) : Prop :=
  validatePath source = .ok path ∧ row.deleted = false

/-- A restore writes the row of its entry. -/
theorem commitRestore_rows (s : SyncServer) (blobs : Table Digest Bytes) {source : Path}
    {m : FileMeta} (hv : validatePath source = .ok m.path) (hm : m.deleted = false) (bytes : Bytes)
    (c : RestoreCall) :
    RowsWritten (RestoredRow source) s (commitRestore { s with versionBlobs := blobs } m bytes c).1 := by
  unfold commitRestore
  simp only [withRestored_db]
  split
  · rename_i db h
    obtain ⟨⟨v, pv, hf⟩, hb⟩ := MetaDb.of_upsertFileScopedVersioned h
    exact RowsWritten.of_insert hf ⟨hv, hm⟩ hb
  · exact RowsWritten.of_db_eq (withRestored_db _ _ _)

theorem restoreTrash_rows (s : SyncServer) (path : Path) (c : RestoreCall) :
    RowsWritten (RestoredRow path) s (restoreTrash blake3 s path c) := by
  unfold restoreTrash
  split
  · exact RowsWritten.refl s
  split_ifs
  · exact RowsWritten.refl s
  split
  · rename_i hv
    exact commitRestore_rows s s.versionBlobs hv rfl _ c
  · exact RowsWritten.refl s

theorem restoreVersion_rows (s : SyncServer) (path : Path) (versionId : ℕ) (c : RestoreCall) :
    RowsWritten (RestoredRow path) s (restoreVersion s path versionId c) := by
  unfold restoreVersion
  simp only
  split_ifs
  · exact RowsWritten.refl s
  split
  · exact RowsWritten.refl s
  split
  · rename_i hv
    split_ifs
    · exact RowsWritten.refl s
    · exact commitRestore_rows s _ hv rfl _ c
  · exact RowsWritten.refl s

theorem restoreSnapshotFile_rows (s : SyncServer) (entry : SnapshotFile) (c : RestoreCall) :
    RowsWritten (RestoredRow entry.path) s (restoreSnapshotFile blake3 s entry c) := by
  unfold restoreSnapshotFile
  split_ifs
  · exact RowsWritten.refl s
  all_goals
    split
    · rename_i hv
      exact commitRestore_rows s _ hv rfl _ c
    · exact RowsWritten.refl s

theorem restoreSnapshot_rows (s : SyncServer) (files : List SnapshotFile) (c : RestoreCall) :
    RowsWritten (fun path row => ∃ entry ∈ files, RestoredRow entry.path path row) s
      (restoreSnapshot blake3 s files c) := by
  unfold restoreSnapshot
  refine RowsWritten.foldl (fun s entry hentry => ?_) s
  exact (restoreSnapshotFile_rows blake3 s entry c).mono fun path row hrow => ⟨entry, hentry, hrow⟩

theorem upsertLocalFile_rows (s : SyncServer) (rel : Path) (stat : FileStat) :
    RowsWritten (fun path row => path = rel ∧ row.deleted = false) s
      (upsertLocalFile blake3 s rel stat) := by
  unfold upsertLocalFile
  split
  · exact RowsWritten.refl s
  split_ifs
  · exact RowsWritten.refl s
  · exact RowsWritten.of_insert rfl ⟨rfl, rfl⟩ rfl

/-- A purge keeps every live row, and every baseline. -/
theorem lookup_deleteFilesWhere (db : MetaDb) (p : Path → FileRow → Bool) (path : Path) :
    (db.deleteFilesWhere p).files.lookup path =
      (db.files.lookup path).filter fun row => !p path row :=
  Table.lookup_eraseWhere p db.files path

/-- The tombstone of the share index is written at the path and nowhere else. -/
theorem tombstoneLocalFile_rows (s : SyncServer) (rel : Path) (now : ℤ) :
    RowsWritten (fun path _ => path = rel) s (tombstoneLocalFile s rel now) := by
  unfold tombstoneLocalFile
  split_ifs
  · exact RowsWritten.refl s
  split
  · rename_i row hrow
    obtain ⟨r, -, rfl⟩ := Option.map_eq_some_iff.mp hrow
    exact RowsWritten.of_insert rfl rfl rfl
  · exact RowsWritten.of_insert rfl rfl rfl

theorem indexEvent_rows (s : SyncServer) (kind : IndexEventKind) (rel : Path) (stat : FileStat)
    (now : ℤ) :
    RowsWritten (fun path _ => path = rel) s (indexEvent blake3 s kind rel stat now) := by
  have hupsert : RowsWritten (fun path _ => path = rel) s (upsertLocalFile blake3 s rel stat) :=
    (upsertLocalFile_rows blake3 s rel stat).mono fun path row hrow => hrow.1
  unfold indexEvent
  by_cases hi : isInternalPath rel = true
  · rw [if_pos hi]
    exact RowsWritten.refl s
  rw [if_neg hi]
  cases kind with
  | upsert => exact hupsert
  | tombstone =>
      by_cases hp : (s.shareTree.lookup rel).isSome = true
      · simp only [if_pos hp]
        exact hupsert
      · simp only [if_neg hp]
        exact tombstoneLocalFile_rows s rel now

theorem fullReconcile_rows (s : SyncServer) (stat : Path → FileStat) (now : ℤ) :
    RowsWritten (fun _ _ => True) s (fullReconcile blake3 s stat now) := by
  unfold fullReconcile
  simp only
  refine (RowsWritten.foldl (fun s rel _ => ?_) s).trans (RowsWritten.foldl (fun s m _ => ?_) _)
  · exact (upsertLocalFile_rows blake3 s rel (stat rel)).mono fun _ _ _ => trivial
  · split_ifs
    · exact RowsWritten.refl s
    · exact (tombstoneLocalFile_rows s m.path now).mono fun _ _ _ => trivial

end

end DiskArcana.Server
