import DiskArcana.Hosting.Model
import DiskArcana.Lib.UnixFs
import DiskArcana.Server.VersionHistory

/-!
# One vault behind the dashboard

The rows of one tenant's vault, the files below `sync_root`, the store of superseded bytes and the
vault's snapshots, with the three restore handlers. `sync_root` is spelled as it was configured: it
may be relative, it may lead through links, and there may be links below it. The guard resolves them
all, and a restored file gets the row of what is left of the resolved path when the configured root
is taken off; where that root is not a prefix of it, the row of the whole resolved path.

The store of superseded bytes is a table apart from the files. What the environment answers (the
session, failing file operations and statements, the clock) comes with the requests.
-/

namespace DiskArcana.Vault

open DiskArcana.Core DiskArcana.Lib DiskArcana.Lib.LexicalPath DiskArcana.Server
open DiskArcana.Lib.UnixFs DiskArcana.Lib.UnixFs.FileSystem
open DiskArcana.Hosting (dbKey replaceBackslash normalizeRelPath Revision snapshotFile)

/-! ## Path strings -/

/-- The segments of a path string, as the operating system walks along them. -/
def segments (s : String) : List String :=
  let parts := (splitSlash s.toList).map String.ofList
  if s.toList.head? = some '/' then "/" :: parts else parts

/-- Source: `std::path::Path::join` -/
def joinPath (base path : String) : String :=
  if path.toList.head? = some '/' then path
  else if base.toList = [] ∨ base.toList.getLast? = some '/' then base ++ path
  else base ++ "/" ++ path

/-- Where the string of a path leads; the empty string leads nowhere.
Source: `std::path::Path::canonicalize` -/
def canonicalizePath (fs : FileSystem Bytes) (cwd : Location) (path : String) : Option Location :=
  if path.toList = [] then none else canonicalize fs cwd (segments path)

/-- The string of a path with the given components. -/
def componentsString : List String → String
  | "/" :: names => "/" ++ pathString names
  | names => pathString names

/-- The string has two dots in a row.
Source: `str::contains` -/
def hasDotDot (s : String) : Bool := (s.toList.zip s.toList.tail).contains ('.', '.')

/-! ## The guard -/

/-- The settings of the server. -/
structure VaultConfig where
  /-- `DISK_SYNC_ROOT`, as it is spelled. -/
  syncRoot : String
  /-- The working directory of the server. -/
  cwd : Location

/-- Source: `error.rs`, `PathGuardError` -/
inductive PathGuardError where
  | outsideRoot
  | nullByte
  | relativeWithDotDot
  | symlinkOutsideRoot
  | pathTooLong
  deriving DecidableEq

section

variable (cfg : VaultConfig) (fs : FileSystem Bytes)

/-- The loop of the guard for a path that leads to nothing: go up, with the last component first, to
an ancestor that exists, and attach the names below it again.
Source: `path_guard.rs`, `validate` -/
def attachToAncestor : List String → List String → Option Location
  | [], _ => none
  | name :: parents, suffix =>
      if name = "/" ∨ name = "." ∨ name = ".." ∨ parents = [] then none
      else match canonicalize fs cfg.cwd parents.reverse with
        | some ancestor => some (ancestor ++ name :: suffix)
        | none => attachToAncestor parents (name :: suffix)

/-- Where the guard takes a path to lead. -/
def canonicalTarget (absolute : String) : Option Location :=
  (canonicalizePath fs cfg.cwd absolute).or
    (attachToAncestor cfg fs (components absolute).reverse [])

/-- Check a path against the sync root, links resolved.
Source: `path_guard.rs`, `validate` -/
def validate (candidate : String) : Except PathGuardError Location :=
  if candidate.toList.contains '\x00' then .error .nullByte
  else if (components candidate).contains ".." then .error .relativeWithDotDot
  else match canonicalizePath fs cfg.cwd cfg.syncRoot with
    | none => .error .outsideRoot
    | some canonicalRoot =>
      match canonicalTarget cfg fs (joinPath cfg.syncRoot candidate) with
      | none => .error .outsideRoot
      | some canonical =>
        if !canonicalRoot.isPrefixOf canonical then .error .symlinkOutsideRoot
        else if 4096 < (componentsString (absolute canonical)).utf8ByteSize then .error .pathTooLong
        else .ok canonical

end

/-- The key of the row that a write to a target gets: the target without the sync root as it is
spelled, or all of it when it does not start with that.
Source: `target.strip_prefix(&state.sync_root).unwrap_or(&target)`, `path_as_str` -/
def rowKey (cfg : VaultConfig) (target : Location) : Path :=
  let root := components cfg.syncRoot
  let rel := if root.isPrefixOf (absolute target) then (absolute target).drop root.length
    else absolute target
  dbKey (replaceBackslash (componentsString rel))

/-! ## The state -/

/-- One vault of one tenant. -/
structure VaultState where
  db : MetaDb
  fs : FileSystem Bytes
  /-- The content-addressed store of superseded bytes. -/
  versionBlobs : Table Digest Bytes
  /-- The files of the stored snapshots, by snapshot id. -/
  snapshots : Table ℕ (List SnapshotFile)
  /-- The next id of `vault_snapshots`. -/
  nextSnapshot : ℕ

/-- A vault without rows and snapshots, over any files and stored bytes. -/
def newVault (tenantId : Option String) (fs : FileSystem Bytes) (blobs : Table Digest Bytes) :
    VaultState where
  db := MetaDb.emptyDb tenantId
  fs := fs
  versionBlobs := blobs
  snapshots := ∅
  nextSnapshot := 1

/-- What the environment answers while one file is written. -/
structure FileAnswers where
  dirOk : Bool
  archiveOk : Bool
  write : WriteAnswer
  upsertOk : Bool
  blobOk : Bool
  mtimeNs : ℤ
  now : ℤ

/-- An environment in which nothing fails. -/
def FileAnswers.calm : FileAnswers where
  dirOk := true
  archiveOk := true
  write := .done
  upsertOk := true
  blobOk := true
  mtimeNs := 0
  now := 0

/-! ## Steps of the handlers -/

/-- Create the directories above a target. -/
def makeParents (fs : FileSystem Bytes) (target : Location) (ok : Bool) : FileSystem Bytes × Bool :=
  if ok then createDirs fs [] target.dropLast else (fs, false)

/-- Store bytes under a hash that has none, if the file system lets it. The bytes are not hashed.
Source: `content_store.rs`, `put` -/
def storeBlob (blobs : Table Digest Bytes) (hash : Digest) (bytes : Bytes) (ok : Bool) :
    Table Digest Bytes :=
  if ok then putBlob blobs hash bytes else blobs

/-- Store the bytes that a write is about to replace, under the hash that the row of the path
remembers. -/
def archive (s : VaultState) (key : Path) (target : Location) (ok : Bool) : Table Digest Bytes :=
  match readFile s.fs [] (absolute target), s.db.getFileScoped key with
  | some current, some currentMeta => storeBlob s.versionBlobs currentMeta.contentHash current ok
  | _, _ => s.versionBlobs

/-- Write bytes to a target. -/
def writeTarget (fs : FileSystem Bytes) (target : Location) (bytes : Bytes) :
    WriteAnswer → FileSystem Bytes × Bool
  | .refused => (fs, false)
  | .cut n => ((writeFile fs [] (absolute target) (bytes.take n)).getD fs, false)
  | .done =>
      match writeFile fs [] (absolute target) bytes with
      | some fs' => (fs', true)
      | none => (fs, false)

/-! ## Restores -/

@[simp] theorem restoredMeta_path (facility : String) (target : Path) (hash : Digest) (size : ℕ)
    (nonce : Option Bytes) (mtimeNs : ℤ) :
    (restoredMeta facility target hash size nonce mtimeNs).path = target := rfl

/-- A restore request. -/
structure RestoreRequest where
  /-- Session, account, and access to the vault. -/
  admitted : Except String Unit
  user : String
  retention : MetaDb.VersionRetention
  /-- By the position of the file among those restored. -/
  env : ℕ → FileAnswers

/-- The request of a user with access, in a calm environment. -/
def RestoreRequest.calm : RestoreRequest where
  admitted := .ok ()
  user := "usr"
  retention := ⟨5, 604800⟩
  env _ := .calm

section

variable (blake3 : Bytes → Digest) (cfg : VaultConfig)

/-- Write restored bytes and their row. The trash handler does not archive the bytes it replaces.
Source: `versions/routes.rs`, `restore_version_inner`; `trash/routes.rs`, `restore_trash_inner`;
`snapshots/routes.rs`, `restore_snapshot_inner` -/
def restoreFile (s : VaultState) (r : RestoreRequest) (env : FileAnswers) (archives : Bool)
    (rev : Revision) : Except String Unit × VaultState :=
  match validate cfg s.fs rev.path with
  | .error _ => (.error "invalid path", s)
  | .ok target =>
    let dirs := makeParents s.fs target env.dirOk
    let s := { s with fs := dirs.1 }
    if !dirs.2 then (.error "write failed", s)
    else
      let s := { s with
        versionBlobs :=
          if archives then archive s (dbKey rev.path) target env.archiveOk else s.versionBlobs }
      let written := writeTarget s.fs target rev.bytes env.write
      let s := { s with fs := written.1 }
      if !written.2 then (.error "write failed", s)
      else
        let m := restoredMeta rev.facility (rowKey cfg target) rev.contentHash rev.size rev.nonce
          env.mtimeNs
        match s.db.upsertFileScopedVersioned m ⟨r.user, r.retention⟩ env.now, env.upsertOk with
        | some db, true =>
          (.ok (), { s with
            db := db
            versionBlobs := storeBlob s.versionBlobs rev.contentHash rev.bytes env.blobOk })
        | _, _ => (.error "database error", s)

/-- The bytes behind a recorded revision: its blob, the blob of the version row with its number, or
a file below `sync_root` that has the right hash.
Source: `trash/routes.rs`, `resolve_trash_blob`; `snapshots/routes.rs`, `resolve_blob` -/
def resolveBlob (s : VaultState) (key : Path) (hash : Digest) (versionId : Option ℕ) : Option Bytes :=
  (s.versionBlobs.lookup hash).or <|
    ((versionId.bind (s.db.getFileVersion key)).bind fun v =>
      s.versionBlobs.lookup v.contentHash).or <|
    (readFile s.fs cfg.cwd (segments (joinPath cfg.syncRoot (pathString key)))).filter fun bytes =>
      decide (blake3 bytes = hash)

/-- What the restore of a recorded revision looks up before it writes.
Source: `versions/routes.rs`, `restore_version_inner` -/
def planVersion (s : VaultState) (r : RestoreRequest) (rawPath : String) (versionId : ℕ) :
    Except String Revision := do
  let path ← normalizeRelPath rawPath
  if versionId = 0 then throw "invalid version_id"
  r.admitted
  let live := s.db.getFileScoped (dbKey path)
  if live.any fun m => m.versionId == some versionId then throw "version is already current"
  match s.db.getFileVersion (dbKey path) versionId with
  | none => throw "version not found"
  | some version =>
    match s.versionBlobs.lookup version.contentHash with
    | none => throw "version blob not available"
    | some bytes =>
      if live.any fun m => !m.deleted && decide (m.contentHash = version.contentHash) then
        throw "file already matches this revision"
      return ⟨path, "dashboard-restore", version.contentHash, version.size, none, bytes⟩

/-- What the restore of a trashed file looks up before it writes.
Source: `trash/routes.rs`, `restore_trash_inner` -/
def planTrash (s : VaultState) (r : RestoreRequest) (rawPath : String) : Except String Revision := do
  let path ← normalizeRelPath rawPath
  r.admitted
  match s.db.getFileScoped (dbKey path) with
  | none => throw "path not found"
  | some trashed =>
    if !trashed.deleted then throw "file is not in trash"
    match resolveBlob blake3 cfg s (dbKey path) trashed.contentHash trashed.versionId with
    | none => throw "file blob not available"
    | some bytes =>
      return ⟨path, "trash-restore", trashed.contentHash, trashed.size, trashed.encryptionNonce,
        bytes⟩

/-- Carry out a plan. -/
def restorePlanned (s : VaultState) (r : RestoreRequest) (archives : Bool) :
    Except String Revision → Except String Unit × VaultState
  | .error e => (.error e, s)
  | .ok rev => restoreFile cfg s r (r.env 0) archives rev

/-- Restore a recorded revision.
Source: `versions/routes.rs`, `restore_version_inner` -/
def restoreVersion (s : VaultState) (r : RestoreRequest) (rawPath : String) (versionId : ℕ) :
    Except String Unit × VaultState :=
  restorePlanned cfg s r true (planVersion s r rawPath versionId)

/-- Restore a trashed file.
Source: `trash/routes.rs`, `restore_trash_inner` -/
def restoreTrash (s : VaultState) (r : RestoreRequest) (rawPath : String) :
    Except String Unit × VaultState :=
  restorePlanned cfg s r false (planTrash blake3 cfg s r rawPath)

/-! ## Snapshots -/

/-- Capture the rows of the vault; `kept` says which of its snapshots its tier retains. The paths of
a snapshot are a primary key.
Source: `meta_db/snapshots.rs`, `create_vault_snapshot` and `prune_vault_snapshots` -/
def createSnapshot (s : VaultState) (admitted : Except String Unit) (kept : ℕ → Bool) :
    Except String ℕ × VaultState :=
  match admitted with
  | .error e => (.error e, s)
  | .ok _ =>
    let files := s.db.listFilesScoped.map snapshotFile
    if (files.map SnapshotFile.path).Nodup then
      (.ok s.nextSnapshot, { s with
        snapshots := Table.eraseWhere (fun id _ => !kept id)
          (s.snapshots.insert s.nextSnapshot files)
        nextSnapshot := s.nextSnapshot + 1 })
    else (.error "database error", s)

/-- `ORDER BY path ASC`.
Source: `meta_db/snapshots.rs`, `list_snapshot_files` -/
def sortSnapshotFiles (files : List SnapshotFile) : List SnapshotFile :=
  files.insertionSort fun a b => (pathString a.path).toList ≤ (pathString b.path).toList

/-- What the restore of a snapshot looks up for one of its live files.
Source: `snapshots/routes.rs`, `restore_snapshot_inner` -/
def planSnapshotFile (s : VaultState) (entry : SnapshotFile) : Option Revision :=
  let path := pathString entry.path
  if path.isEmpty || hasDotDot path then none
  else (resolveBlob blake3 cfg s entry.path entry.contentHash
      (if entry.versionId = 0 then none else some entry.versionId)).map fun bytes =>
    ⟨path, "snapshot-restore", entry.contentHash, entry.size, none, bytes⟩

/-- The loop over the files of a snapshot: the vault as the files before have left it, and the
counters. -/
structure SnapshotLoop where
  vault : VaultState
  restored : ℕ
  skipped : ℕ
  failed : ℕ

/-- The position of the next file. -/
def SnapshotLoop.position (l : SnapshotLoop) : ℕ := l.restored + l.skipped + l.failed

/-- One turn of the loop: deleted files are skipped, and a file that fails is counted.
Source: `snapshots/routes.rs`, `restore_snapshot_inner` -/
def restoreTurn (r : RestoreRequest) (l : SnapshotLoop) (entry : SnapshotFile) : SnapshotLoop :=
  if entry.deleted then { l with skipped := l.skipped + 1 }
  else match planSnapshotFile blake3 cfg l.vault entry with
    | none => { l with failed := l.failed + 1 }
    | some rev =>
      match restoreFile cfg l.vault r (r.env l.position) true rev with
      | (.ok _, s) => { l with vault := s, restored := l.restored + 1 }
      | (.error _, s) => { l with vault := s, failed := l.failed + 1 }

/-- The answer to a restored snapshot.
Source: `snapshots/routes.rs`, `RestoreSnapshotResponse` -/
structure RestoreSnapshotResponse where
  snapshotId : ℕ
  filesRestored : ℕ
  filesSkipped : ℕ
  filesFailed : ℕ
  deriving DecidableEq

/-- The loop before its first turn. -/
def loopStart (s : VaultState) : SnapshotLoop := ⟨s, 0, 0, 0⟩

/-- Restore the files of a snapshot, one by one.
Source: `snapshots/routes.rs`, `restore_snapshot_inner` -/
def restoreSnapshot (s : VaultState) (r : RestoreRequest) (id : ℕ) :
    Except String RestoreSnapshotResponse × VaultState :=
  match r.admitted with
  | .error e => (.error e, s)
  | .ok _ =>
    match s.snapshots.lookup id with
    | none => (.error "snapshot not found", s)
    | some files =>
      let l := Trace.run (restoreTurn blake3 cfg r) (loopStart s) (sortSnapshotFiles files)
      (.ok ⟨id, l.restored, l.skipped, l.failed⟩, l.vault)

/-! ## Runs -/

/-- A hash that tells bytes apart by the first of them. -/
def smallHash (bytes : Bytes) : Digest := List.Vector.replicate 32 (bytes.headD 255)

/-- What can happen to a vault. -/
inductive VaultEvent where
  /-- An upsert, a tombstone or a prune of the version history. -/
  | rows (e : MetaDb.HistoryEvent)
  /-- Rows are deleted from the trash. -/
  | purge (p : Path → FileRow → Bool)
  /-- Files and stored bytes change in any way. -/
  | outside (fs : FileSystem Bytes) (blobs : Table Digest Bytes)
  | createSnapshot (admitted : Except String Unit) (kept : ℕ → Bool)
  | restoreVersion (r : RestoreRequest) (path : String) (versionId : ℕ)
  | restoreTrash (r : RestoreRequest) (path : String)
  | restoreSnapshot (r : RestoreRequest) (id : ℕ)

/-- The state after an event. -/
def vaultStep (s : VaultState) : VaultEvent → VaultState
  | .rows e => { s with db := MetaDb.historyStep s.db e }
  | .purge p => { s with db := s.db.deleteFilesWhere fun path row => p path row && row.deleted }
  | .outside fs blobs => { s with fs := fs, versionBlobs := blobs }
  | .createSnapshot admitted kept => (createSnapshot s admitted kept).2
  | .restoreVersion r path versionId => (restoreVersion cfg s r path versionId).2
  | .restoreTrash r path => (restoreTrash blake3 cfg s r path).2
  | .restoreSnapshot r id => (restoreSnapshot blake3 cfg s r id).2

end

end DiskArcana.Vault
