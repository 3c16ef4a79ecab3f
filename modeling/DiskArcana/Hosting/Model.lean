import DiskArcana.Lib.LexicalPath
import DiskArcana.Server.Transfer

/-!
# A server with several tenants and shares

The host as one state: one file system for all shares, one set of tables for each tenant and vault.
A share is served from its own root or from `sync_root`, the content-addressed store of superseded
bytes is a directory below `sync_root`, and the restore handlers write below `sync_root` whatever
the share. Requests carry path strings; a row is found by the exact string, a file by where the
string leads.

`deltaUpload` is the handler with all its exits, and what each of them leaves behind. The answers of
the environment (authentication, quota, publisher verification, file operations and statements that
may fail) come with the request. Roots are canonical and there are no symbolic links below them. A
temporary file has a random 64-bit name, which is taken to collide with nothing: temporary files are
kept apart from the others, each with the root it lies in.
-/

namespace DiskArcana.Hosting

open DiskArcana.Core DiskArcana.Lib DiskArcana.Lib.LexicalPath DiskArcana.Server

/-! ## Path strings -/

/-- The key of a stored path string: equal strings, and only these, are one key. -/
def dbKey (s : String) : Path := (splitSlash s.toList).map String.ofList

/-- `str::replace('\\', "/")`. -/
def replaceBackslash (s : String) : String :=
  String.ofList (s.toList.map fun c => if c = '\\' then '/' else c)

/-- The key a relative path is stored under.
Source: `meta_db/files.rs` and `meta_db/versions.rs`, `path_as_str` -/
def pathAsStr (rel : List String) : Path := dbKey (replaceBackslash (pathString rel))

/-- The guard on a requested path: the location it leads to, which must be the root or below it.
Source: `path_guard.rs`, `validate` -/
def pathGuard (root : List String) (path : String) : Except String (List String) :=
  if path.toList.contains '\x00' then .error "path guard: null byte"
  else if (components path).contains ".." then .error "path guard: relative path with '..'"
  else
    let loc := resolve root (components path)
    if !root.isPrefixOf loc then .error "path guard: outside root"
    else if 4096 < ("/" ++ pathString loc).utf8ByteSize then .error "path guard: path too long"
    else .ok loc

/-- `char::is_whitespace`: the Unicode property `White_Space`. -/
def isWhitespace (c : Char) : Bool :=
  let n := c.toNat
  (9 ≤ n && n ≤ 13) || (0x2000 ≤ n && n ≤ 0x200a) ||
    [0x20, 0x85, 0xa0, 0x1680, 0x2028, 0x2029, 0x202f, 0x205f, 0x3000].contains n

/-- Source: `trash/routes.rs` and `versions/routes.rs`, `normalize_rel_path` -/
def normalizeRelPath (raw : String) : Except String String :=
  let trimmed := ((raw.toList.dropWhile isWhitespace).reverse.dropWhile isWhitespace).reverse
  if trimmed.isEmpty || (trimmed.zip trimmed.tail).contains ('.', '.') then .error "invalid path"
  else .ok (replaceBackslash (String.ofList trimmed))

/-! ## The state -/

/-- What never changes while the server runs. -/
structure HostConfig where
  serverNodeId : NodeId
  /-- `sync_root`. -/
  syncRoot : List String
  /-- `DISK_SHARE_ROOTS`. -/
  shareRoots : String → Option (List String)

/-- The root a share is served from.
Source: `services/sync.rs`, `root_for` -/
def HostConfig.rootFor (cfg : HostConfig) (share : String) : List String :=
  (cfg.shareRoots share).getD cfg.syncRoot

/-- What scopes a row: the tenant, if there is one, and the vault. -/
abbrev Scope := Option String × String

/-- The state of the server. -/
structure Host where
  /-- The regular files, by location. -/
  files : Table (List String) Bytes
  /-- The temporary files, with the share root they lie in. -/
  temps : List (List String × Bytes)
  /-- The tables, by the tenant and the vault that scope their rows. -/
  db : Scope → MetaDb
  /-- The stored snapshots, by row id. -/
  snapshots : Table ℕ (Scope × List SnapshotFile)
  /-- The next id of `vault_snapshots`. -/
  nextSnapshot : ℕ

/-- A server without files and rows. -/
def Host.empty : Host where
  files := ∅
  temps := []
  db := fun scope =>
    { tenantId := scope.1, files := ∅, nodeBaselines := ∅, fileVersions := [], conflicts := [] }
  snapshots := ∅
  nextSnapshot := 1

/-- Replace the tables of a scope. -/
def Host.setDb (h : Host) (scope : Scope) (db : MetaDb) : Host :=
  { h with db := Function.update h.db scope db }

/-- Write a file. -/
def Host.write (h : Host) (loc : List String) (bytes : Bytes) : Host :=
  { h with files := h.files.insert loc bytes }

/-- Write to a location in place, as far as the file system lets it. -/
def Host.writeAs (h : Host) (loc : List String) (bytes : Bytes) (answer : WriteAnswer) : Host :=
  { h with files := answer.writeTo h.files loc bytes }

/-! ## The content store -/

/-- A hexadecimal digit. -/
def hexDigit (n : ℕ) : Char := if n < 10 then Char.ofNat (48 + n) else Char.ofNat (87 + n)

/-- Source: `hex::encode` -/
def hexEncode (bytes : Bytes) : List Char :=
  bytes.flatMap fun b => [hexDigit (b.toNat / 16), hexDigit (b.toNat % 16)]

variable (blake3 : Bytes → Digest) (cfg : HostConfig)

/-- Where the bytes of a hash are stored: two hexadecimal digits name the directory, the others the
file.
Source: `content_store.rs`, `blob_path` -/
def blobLoc (hash : Digest) : List String :=
  cfg.syncRoot ++ [".version-blobs", String.ofList ((hexEncode hash.toList).take 2),
    String.ofList ((hexEncode hash.toList).drop 2)]

/-- The stored bytes of a hash.
Source: `content_store.rs`, `get` -/
def getBlob (h : Host) (hash : Digest) : Option Bytes := h.files.lookup (blobLoc cfg hash)

/-- Store bytes under a hash that has none, if the file system lets it. The bytes are not hashed.
Source: `content_store.rs`, `put` -/
def putBlob (h : Host) (hash : Digest) (bytes : Bytes) (ok : Bool) : Host :=
  if (getBlob cfg h hash).isSome || !ok then h else h.write (blobLoc cfg hash) bytes

/-- Store the bytes that a write is about to replace, under the hash that the row remembers. -/
def archive (h : Host) (scope : Scope) (key : Path) (target : List String) (ok : Bool) : Host :=
  match h.files.lookup target, (h.db scope).getFileScoped key with
  | some oldBytes, some oldMeta => putBlob cfg h oldMeta.contentHash oldBytes ok
  | _, _ => h

/-! ## Uploads -/

/-- A message of an upload stream.
Source: `proto/disk.proto`, `DeltaUploadRequest` -/
structure StreamMessage where
  path : String
  contentHash : Bytes
  chunks : List DeltaChunk

/-- An upload request, with what the environment answers in its course. -/
structure UploadRequest where
  tenant : Option String
  share : String
  /-- What happens before the stream is read: session, tenant, selective-sync lookup, access
  list. -/
  admitted : Except String Unit
  includes : List String
  /-- The messages of the stream; an error ends it. -/
  stream : List (Except String StreamMessage)
  /-- The spool file can be created. -/
  spoolOk : Bool
  /-- The spool file can grow to these bytes. -/
  appendOk : Bytes → Bool
  fsyncOk : Bool
  /-- A temporary file can be removed. -/
  removeOk : Bool
  /-- The verdict on the publisher's signature; `ok` when there is nothing to verify. -/
  publisher : Except String Unit
  /-- Eight bytes of the certificate's fingerprint, in hexadecimal. -/
  fingerprint : String
  quarantineOk : Bool
  quota : Except String Unit
  archiveOk : Bool
  /-- The parent directory exists or can be created. -/
  dirOk : Bool
  /-- The staging file of an empty upload can be created. -/
  stageOk : Bool
  /-- The staging file of an empty upload can be opened and synced. -/
  stageSyncOk : Bool
  renameOk : Bool
  /-- The tenant's database can be opened. -/
  dbOk : Bool
  /-- The statements of the upsert run. -/
  upsertOk : Bool
  /-- Registering the vault's usage. -/
  usage : Except String Unit
  retention : MetaDb.VersionRetention
  mtimeNs : ℤ
  now : ℤ

/-- The scope of the rows of an upload. -/
def UploadRequest.scope (r : UploadRequest) : Scope := (r.tenant, r.share)

/-- What the first message announces. -/
structure Announced where
  path : String
  contentHash : Bytes
  deriving DecidableEq

/-- The checks on the first message. -/
def announce (r : UploadRequest) (msg : StreamMessage) : Except String Announced :=
  if !pathMatchesIncludes msg.path r.includes then .error "path outside selective sync includes"
  else match pathGuard (cfg.rootFor r.share) msg.path with
    | .error e => .error e
    | .ok _ => .ok ⟨msg.path, msg.contentHash⟩

/-- Append a chunk to the spool, which the first chunk creates. An error comes with what the spool
holds at that point.
Source: `services/sync.rs`, `delta_upload` and `UploadSpool` -/
def receiveChunk (r : UploadRequest) (spool : Option Bytes) (chunk : DeltaChunk) :
    Except (String × Option Bytes) Bytes :=
  if !chunkOk blake3 chunk then .error ("chunk integrity failure (T-Tampering)", spool)
  else match spool with
    | none =>
      if !r.spoolOk then .error ("create upload spool", none)
      else if r.appendOk chunk.data then .ok chunk.data
      else .error ("spool write", some [])
    | some bytes =>
      if r.appendOk (bytes ++ chunk.data) then .ok (bytes ++ chunk.data)
      else .error ("spool write", some bytes)

/-- Append the chunks of a message. -/
def receiveChunks (r : UploadRequest) (spool : Option Bytes) :
    List DeltaChunk → Except (String × Option Bytes) (Option Bytes)
  | [] => .ok spool
  | chunk :: chunks =>
    match receiveChunk blake3 r spool chunk with
    | .error e => .error e
    | .ok bytes => receiveChunks r (some bytes) chunks

/-- Read the stream to its end.
Source: `services/sync.rs`, `delta_upload` -/
def receiveStream (r : UploadRequest) (announced : Option Announced) (spool : Option Bytes) :
    List (Except String StreamMessage) →
      Except (String × Option Bytes) (Option Announced × Option Bytes)
  | [] => .ok (announced, spool)
  | .error e :: _ => .error (e, spool)
  | .ok msg :: rest =>
    match (match announced with
      | some a => .ok a
      | none => announce cfg r msg : Except String Announced) with
    | .error e => .error (e, spool)
    | .ok a =>
      match receiveChunks blake3 r spool msg.chunks with
      | .error e => .error e
      | .ok spool => receiveStream r (some a) spool rest

/-- Dropping an unfinished spool removes its file.
Source: `services/sync.rs`, `UploadSpool::drop` -/
def dropSpool (h : Host) (r : UploadRequest) : Option Bytes → Host
  | none => h
  | some bytes =>
    if r.removeOk then h else { h with temps := (cfg.rootFor r.share, bytes) :: h.temps }

/-- The stream as a whole: what it announced and what was spooled. A finished spool stays on disk.
Source: `services/sync.rs`, `delta_upload` and `UploadSpool::finalize` -/
def receive (h : Host) (r : UploadRequest) :
    Except String (Option Announced × Option Bytes) × Host :=
  match r.admitted with
  | .error e => (.error e, h)
  | .ok _ =>
    match receiveStream blake3 cfg r none none r.stream with
    | .error (e, spool) => (.error e, dropSpool cfg h r spool)
    | .ok (announced, none) => (.ok (announced, none), h)
    | .ok (announced, some bytes) =>
      if r.fsyncOk then
        (.ok (announced, some bytes),
          { h with temps := (cfg.rootFor r.share, bytes) :: h.temps })
      else (.error "spool fsync", dropSpool cfg h r (some bytes))

/-- Where the bytes of a rejected publisher go.
Source: `services/sync.rs`, `delta_upload` (publisher verification gate) -/
def quarantineLoc (r : UploadRequest) (path : String) : List String :=
  resolve (resolve (resolve (cfg.syncRoot ++ [".quarantine"]) (components r.share)) [r.fingerprint])
    (components path)

/-- The gates between the stream and the commit: the announced hash, the publisher, the quota.
Source: `services/sync.rs`, `delta_upload` -/
def verify (h : Host) (r : UploadRequest) (announced : Option Announced) (spool : Option Bytes) :
    Except String Unit × Host :=
  let bytes := spool.getD []
  let expected := (announced.map Announced.contentHash).getD []
  if !expected.isEmpty && expected.length != 32 then (.error "invalid content_hash length", h)
  else if !expected.isEmpty && expected != (blake3 bytes).toList then
    (.error "content_hash mismatch",
      if spool.isSome && r.removeOk then { h with temps := h.temps.tail } else h)
  else match announced with
    | none => (.ok (), h)
    | some a =>
      match r.publisher, r.quota with
      | .error e, _ =>
        (.error ("publisher signature invalid: " ++ e),
          if r.quarantineOk then h.write (quarantineLoc cfg r a.path) bytes else h)
      | .ok _, .error e => (.error e, h)
      | .ok _, .ok _ => (.ok (), h)

/-- The row entry of an upload. -/
def rowMeta (r : UploadRequest) (target : List String) (bytes : Bytes) : FileMeta :=
  uploadedMeta cfg.serverNodeId (pathAsStr (target.drop (cfg.rootFor r.share).length)) (blake3 bytes)
    bytes.length r.mtimeNs

/-- The tables after an upload; an upsert that fails is not fatal. -/
def recordRow (h : Host) (r : UploadRequest) (target : List String) (bytes : Bytes) : Host :=
  if r.upsertOk then
    h.setDb r.scope (((h.db r.scope).upsertFileScopedVersioned (rowMeta blake3 cfg r target bytes)
      ⟨cfg.serverNodeId, r.retention⟩ r.now).getD (h.db r.scope))
  else h

/-- A temporary file for an upload without chunks, which has no spool. -/
def stageEmpty (h : Host) (r : UploadRequest) (spool : Option Bytes) : Except String Unit × Host :=
  match spool with
  | some _ => (.ok (), h)
  | none =>
    if !r.stageOk then (.error "create empty temp", h)
    else
      let h := { h with temps := (cfg.rootFor r.share, []) :: h.temps }
      if r.stageSyncOk then (.ok (), h) else (.error "fsync temp", h)

/-- Archive the old bytes, rename the new ones into place, write the row.
Source: `services/sync.rs`, `delta_upload` (commit) -/
def commit (h : Host) (r : UploadRequest) (announced : Option Announced) (spool : Option Bytes) :
    Except String Unit × Host :=
  match announced with
  | none => (.ok (), h)
  | some a =>
    match pathGuard (cfg.rootFor r.share) a.path with
    | .error e => (.error e, h)
    | .ok target =>
      let h := archive cfg h r.scope (dbKey a.path) target r.archiveOk
      if !r.dirOk then (.error "create parent dir", h)
      else match stageEmpty cfg h r spool with
        | (.error e, h) => (.error e, h)
        | (.ok _, h) =>
          if !r.renameOk then (.error "rename temp to target", h)
          else
            let h := { h with temps := h.temps.tail }.write target (spool.getD [])
            if r.dbOk then (.ok (), recordRow blake3 cfg h r target (spool.getD []))
            else (.error "tenant meta db", h)

/-- Receive an upload stream and commit it: the answer, and the state whatever the answer.
Source: `services/sync.rs`, `delta_upload` -/
def deltaUpload (h : Host) (r : UploadRequest) : Except String Digest × Host :=
  match receive blake3 cfg h r with
  | (.error e, h) => (.error e, h)
  | (.ok (announced, spool), h) =>
    match verify blake3 cfg h r announced spool with
    | (.error e, h) => (.error e, h)
    | (.ok _, h) =>
      match commit blake3 cfg h r announced spool with
      | (.error e, h) => (.error e, h)
      | (.ok _, h) =>
        match r.usage with
        | .error e => (.error e, h)
        | .ok _ => (.ok (blake3 (spool.getD [])), h)

/-! ## Downloads and exchanges -/

/-- A download request. -/
structure DownloadRequest where
  tenant : Option String
  share : String
  admitted : Except String Unit
  includes : List String
  path : String

/-- The bytes served for a download.
Source: `services/sync.rs`, `delta_download` -/
def deltaDownload (h : Host) (r : DownloadRequest) : Except String Bytes :=
  match r.admitted with
  | .error e => .error e
  | .ok _ =>
    if !pathMatchesIncludes r.path r.includes then .error "path outside selective sync includes"
    else match pathGuard (cfg.rootFor r.share) r.path with
      | .error e => .error e
      | .ok loc =>
        match h.files.lookup loc with
        | some bytes => .ok bytes
        | none => .error "file not found"

/-- An exchange request. -/
structure ExchangeRequest where
  tenant : Option String
  share : String
  admitted : Except String Unit
  call : ExchangeCall

/-- Reconcile the caller's snapshot with the rows of its tenant and share.
Source: `services/sync.rs`, `exchange_state` -/
def exchange (h : Host) (r : ExchangeRequest) : Except String SyncStateResponse × Host :=
  match r.admitted with
  | .error e => (.error e, h)
  | .ok _ =>
    match exchangeState r.share (h.db (r.tenant, r.share)) r.call with
    | .error e => (.error e, h)
    | .ok (response, db) => (.ok response, h.setDb (r.tenant, r.share) db)

/-! ## Restores -/

/-- What the environment answers while one file is restored. -/
structure RestoreEnv where
  dirOk : Bool
  archiveOk : Bool
  write : WriteAnswer
  upsertOk : Bool
  blobOk : Bool
  mtimeNs : ℤ
  now : ℤ

/-- A restore request. -/
structure RestoreRequest where
  tenant : Option String
  vault : String
  admitted : Except String Unit
  user : String
  retention : MetaDb.VersionRetention
  /-- By the position of the file among those restored. -/
  env : ℕ → RestoreEnv

/-- The scope of the rows of a restore. -/
def RestoreRequest.scope (r : RestoreRequest) : Scope := (r.tenant, r.vault)

/-- What is to be restored: the path, the columns of the row to write, the facility that restores,
and the bytes. -/
structure Revision where
  path : String
  facility : String
  contentHash : Digest
  size : ℕ
  nonce : Option Bytes
  bytes : Bytes

/-- Write restored bytes and their row: always below `sync_root`. The trash handler does not archive
the bytes it replaces.
Source: `versions/routes.rs`, `restore_version_inner`; `trash/routes.rs`, `restore_trash_inner`;
`snapshots/routes.rs`, `restore_snapshot_inner` -/
def restoreFile (h : Host) (r : RestoreRequest) (env : RestoreEnv) (archives : Bool)
    (rev : Revision) : Except String Unit × Host :=
  match pathGuard cfg.syncRoot rev.path with
  | .error _ => (.error "invalid path", h)
  | .ok target =>
    if !env.dirOk then (.error "write failed", h)
    else
      let h := if archives then archive cfg h r.scope (dbKey rev.path) target env.archiveOk else h
      let h := h.writeAs target rev.bytes env.write
      if !env.write.isDone then (.error "write failed", h)
      else
        let m := restoredMeta rev.facility (pathAsStr (target.drop cfg.syncRoot.length))
          rev.contentHash rev.size rev.nonce env.mtimeNs
        match (h.db r.scope).upsertFileScopedVersioned m ⟨r.user, r.retention⟩ env.now,
            env.upsertOk with
        | some db, true =>
          (.ok (), putBlob cfg (h.setDb r.scope db) rev.contentHash rev.bytes env.blobOk)
        | _, _ => (.error "database error", h)

/-- What the restore of a recorded revision looks up before it writes.
Source: `versions/routes.rs`, `restore_version_inner` -/
def planVersion (h : Host) (r : RestoreRequest) (rawPath : String) (versionId : ℕ) :
    Except String Revision := do
  let path ← normalizeRelPath rawPath
  if versionId = 0 then throw "invalid version_id"
  r.admitted
  let live := (h.db r.scope).getFileScoped (dbKey path)
  if live.any fun m => m.versionId == some versionId then throw "version is already current"
  match (h.db r.scope).getFileVersion (dbKey path) versionId with
  | none => throw "version not found"
  | some version =>
    match getBlob cfg h version.contentHash with
    | none => throw "version blob not available"
    | some bytes =>
      if live.any fun m => !m.deleted && decide (m.contentHash = version.contentHash) then
        throw "file already matches this revision"
      return ⟨path, "dashboard-restore", version.contentHash, version.size, none, bytes⟩

/-- The bytes behind a recorded revision: its blob, the blob of the version row with its number, or
a file below `sync_root` that has the right hash.
Source: `trash/routes.rs`, `resolve_trash_blob`; `snapshots/routes.rs`, `resolve_blob` -/
def resolveBlob (h : Host) (scope : Scope) (key : Path) (hash : Digest) (versionId : Option ℕ) :
    Option Bytes :=
  (getBlob cfg h hash).or <|
    ((versionId.bind ((h.db scope).getFileVersion key)).bind fun v =>
      getBlob cfg h v.contentHash).or <|
    (h.files.lookup (resolve cfg.syncRoot (components (pathString key)))).filter fun bytes =>
      decide (blake3 bytes = hash)

/-- What the restore of a trashed file looks up before it writes.
Source: `trash/routes.rs`, `restore_trash_inner` -/
def planTrash (h : Host) (r : RestoreRequest) (rawPath : String) : Except String Revision := do
  let path ← normalizeRelPath rawPath
  r.admitted
  match (h.db r.scope).getFileScoped (dbKey path) with
  | none => throw "path not found"
  | some trashed =>
    if !trashed.deleted then throw "file is not in trash"
    match resolveBlob blake3 cfg h r.scope (dbKey path) trashed.contentHash trashed.versionId with
    | none => throw "file blob not available"
    | some bytes =>
      return ⟨path, "trash-restore", trashed.contentHash, trashed.size, trashed.encryptionNonce,
        bytes⟩

/-- Carry out a plan. -/
def restorePlanned (h : Host) (r : RestoreRequest) (archives : Bool) :
    Except String Revision → Except String Unit × Host
  | .error e => (.error e, h)
  | .ok rev => restoreFile cfg h r (r.env 0) archives rev

/-- Restore a recorded revision.
Source: `versions/routes.rs`, `restore_version_inner` -/
def restoreVersion (h : Host) (r : RestoreRequest) (rawPath : String) (versionId : ℕ) :
    Except String Unit × Host :=
  restorePlanned cfg h r true (planVersion cfg h r rawPath versionId)

/-- Restore a trashed file.
Source: `trash/routes.rs`, `restore_trash_inner` -/
def restoreTrash (h : Host) (r : RestoreRequest) (rawPath : String) : Except String Unit × Host :=
  restorePlanned cfg h r false (planTrash blake3 cfg h r rawPath)

/-- A row as a snapshot keeps it. -/
def snapshotFile (m : FileMeta) : SnapshotFile where
  path := pathAsStr m.path
  contentHash := m.contentHash
  size := m.size
  versionId := m.versionId.getD 1
  deleted := m.deleted

/-- Capture the rows of a vault; `kept` says which of the vault's snapshots its tier retains.
Source: `meta_db/snapshots.rs`, `create_vault_snapshot` and `prune_vault_snapshots` -/
def createSnapshot (h : Host) (scope : Scope) (admitted : Except String Unit) (kept : ℕ → Bool) :
    Except String ℕ × Host :=
  match admitted with
  | .error e => (.error e, h)
  | .ok _ =>
    let files := (h.db scope).listFilesScoped.map snapshotFile
    (.ok h.nextSnapshot,
      { h with
        snapshots := Table.eraseWhere (fun id s => decide (s.1 = scope) && !kept id)
          (h.snapshots.insert h.nextSnapshot (scope, files))
        nextSnapshot := h.nextSnapshot + 1 })

/-- What the restore of a snapshot looks up for one of its files; deleted files are skipped.
Source: `snapshots/routes.rs`, `restore_snapshot_inner` -/
def planSnapshotFile (h : Host) (r : RestoreRequest) (entry : SnapshotFile) : Option Revision :=
  let cs := (pathString entry.path).toList
  if entry.deleted || cs.isEmpty || (cs.zip cs.tail).contains ('.', '.') then none
  else (resolveBlob blake3 cfg h r.scope entry.path entry.contentHash
      (if entry.versionId = 0 then none else some entry.versionId)).map fun bytes =>
    ⟨pathString entry.path, "snapshot-restore", entry.contentHash, entry.size, none, bytes⟩

/-- One turn of the loop over the files of a snapshot; a file that fails is counted, and the loop
goes on with what it left.
Source: `snapshots/routes.rs`, `restore_snapshot_inner` -/
def restoreSnapshotFile (h : Host) (r : RestoreRequest) (env : RestoreEnv) (entry : SnapshotFile) :
    Host :=
  match planSnapshotFile blake3 cfg h r entry with
  | none => h
  | some rev => (restoreFile cfg h r env true rev).2

/-- The loop over the files of a snapshot. -/
def restoreSnapshotFiles (h : Host) (r : RestoreRequest) :
    ℕ → List SnapshotFile → Host
  | _, [] => h
  | i, entry :: rest =>
    restoreSnapshotFiles (restoreSnapshotFile blake3 cfg h r (r.env i) entry) r (i + 1) rest

/-- Restore the files of a snapshot of the vault, one by one.
Source: `snapshots/routes.rs`, `restore_snapshot_inner` -/
def restoreSnapshot (h : Host) (r : RestoreRequest) (id : ℕ) : Except String Unit × Host :=
  match r.admitted with
  | .error e => (.error e, h)
  | .ok _ =>
    match h.snapshots.lookup id with
    | none => (.error "snapshot not found", h)
    | some (scope, files) =>
      if scope = r.scope then (.ok (), restoreSnapshotFiles blake3 cfg h r 0 files)
      else (.error "snapshot not found", h)

/-! ## The share index -/

/-- Index a file below a share's root; the server's own directories are left out, and the row belongs
to no tenant.
Source: `share_index/mod.rs`, `upsert_local_file` -/
def indexUpsert (h : Host) (vault : String) (rel : List String) (stat : FileStat) : Host :=
  if rel.isEmpty || isInternalPath rel then h
  else match h.files.lookup (cfg.rootFor vault ++ rel) with
    | none => h
    | some bytes =>
      h.setDb (none, vault) ((h.db (none, vault)).upsertFileScoped
        { indexedMeta blake3 cfg.serverNodeId rel bytes stat with path := pathAsStr rel })

/-! ## Runs -/

/-- A request to the server. -/
inductive Request where
  | upload (r : UploadRequest)
  | download (r : DownloadRequest)
  | exchange (r : ExchangeRequest)
  | restoreVersion (r : RestoreRequest) (path : String) (versionId : ℕ)
  | restoreTrash (r : RestoreRequest) (path : String)
  | createSnapshot (scope : Scope) (admitted : Except String Unit) (kept : ℕ → Bool)
  | restoreSnapshot (r : RestoreRequest) (id : ℕ)

/-- What can happen at the server. -/
inductive HostEvent where
  | request (req : Request)
  /-- The share index finds a file. -/
  | index (vault : String) (rel : List String) (stat : FileStat)
  /-- Someone writes or removes a file behind the server's back. -/
  | outside (loc : List String) (content : Option Bytes)

/-- The state after a request. -/
def serve (h : Host) : Request → Host
  | .upload r => (deltaUpload blake3 cfg h r).2
  | .download _ => h
  | .exchange r => (exchange h r).2
  | .restoreVersion r path versionId => (restoreVersion cfg h r path versionId).2
  | .restoreTrash r path => (restoreTrash blake3 cfg h r path).2
  | .createSnapshot scope admitted kept => (createSnapshot h scope admitted kept).2
  | .restoreSnapshot r id => (restoreSnapshot blake3 cfg h r id).2

/-- The state after an event. -/
def hostStep (h : Host) : HostEvent → Host
  | .request req => serve blake3 cfg h req
  | .index vault rel stat => indexUpsert blake3 cfg h vault rel stat
  | .outside loc (some bytes) => h.write loc bytes
  | .outside loc none => { h with files := h.files.erase loc }

end DiskArcana.Hosting
