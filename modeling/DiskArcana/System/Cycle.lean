import DiskArcana.System.Mesh
import DiskArcana.Client.Conflict
import DiskArcana.Client.Upload

/-!
# One client's sync cycle, step by step

`RemoteSync::execute` of `sync_loop/wire.rs`, with the loading of the baselines in front of it
(`daemon.rs`), as a machine: a scan, an exchange, and then a queue of tasks that are worked off one
after the other. Reading a file, fetching bytes and writing them are separate steps, and between any
two steps the user may edit the directory and anything may happen on the server.

The vault has no client-side encryption, so the client has no key, every upload is plaintext and the
client's store of file rows stays empty. Directories are not modelled; a write that the file system
refuses or breaks off is an `Outcome`.
-/

namespace DiskArcana.System

open DiskArcana.Core DiskArcana.Lib DiskArcana.Server DiskArcana.Client

/-! ## The server's part of an event -/

section

variable (blake3 : Bytes → Digest)

/-- What an event of the mesh does to the server. -/
def serverStep (server : SyncServer) (e : Event) : SyncServer :=
  (step blake3 noKey ⟨server, fun _ => ∅, fun _ => emptyAnswer⟩ e).server

/-- What an event does to the server depends on nothing else. -/
theorem server_step (w : World) (e : Event) :
    (step blake3 noKey w e).server = serverStep blake3 w.server e := by
  unfold serverStep
  cases e with
  | exchange call =>
      rw [step_exchange, step_exchange]
      rfl
  | upload call =>
      show (uploadStep blake3 w call).server = (uploadStep blake3 _ call).server
      unfold uploadStep
      dsimp only
      split <;> rfl
  | download nodeId role includes entry ok =>
      show (downloadStep blake3 noKey w nodeId role includes entry ok).server =
        (downloadStep blake3 noKey _ nodeId role includes entry ok).server
      unfold downloadStep
      dsimp only
      split
      · split_ifs <;> rfl
      · rfl
  | applyDelete nodeId path ok => cases ok <;> rfl
  | _ => rfl

/-! ## The client -/

/-- The client of one share: its identity, what the server's access list grants it, and how it is
configured. -/
structure ShareConfig where
  nodeId : NodeId
  role : Option EnforcedRole
  includes : List String
  /-- `declared_direction` is `receive_only`. -/
  receiveOnly : Bool
  /-- Peers on the local network are asked before the server. -/
  lanFetch : Bool

/-- What is left of a cycle after the exchange. A task that waits for bytes is replaced, once it has
them, by the one that uses them. -/
inductive Task where
  | upload (entry : FileMetadata)
  | sendUpload (entry : FileMetadata) (bytes : Bytes)
  | download (entry : FileMetadata)
  | writeDownload (entry : FileMetadata) (plaintext : Bytes)
  | saveDownloads
  | readConflict (conflict : ConflictMessage)
  | fetchConflict (conflict : ConflictMessage) (localBytes : Bytes)
  | applyConflict (conflict : ConflictMessage) (localBytes remotePlain : Bytes)
  | delete (entry : FileMetadata)
  | saveDeletes

/-- What a cycle holds in memory after the exchange. -/
structure Cycle where
  /-- The live rows of `node_baselines`, as loaded before the cycle. -/
  baselines : PathMap BaselineRow
  /-- The snapshot this cycle sent. -/
  files : List FileMetadata
  tasks : List Task
  /-- Source: `sync_loop/wire.rs`, `downloaded_baselines` -/
  downloaded : List FileMeta
  /-- Source: `sync_loop/wire.rs`, `delete_baselines` -/
  removed : List FileMeta

/-- Where the client stands. -/
inductive Phase where
  | idle
  | scanned (baselines : PathMap BaselineRow) (files : List FileMetadata)
  | working (cycle : Cycle)

/-- One client and the server. -/
structure Site where
  server : SyncServer
  /-- The vault directory. -/
  disk : PathMap Bytes
  blobCache : Table Digest Bytes
  /-- The client's own `node_baselines`, for this node and share. -/
  nodeBaselines : PathMap BaselineRow
  phase : Phase

/-- The server's row of a path. -/
def Site.row (s : Site) (path : Path) : Option FileMeta := s.server.db.getFileScoped path

/-- What the environment answers to a task: whether the transfer arrives, what a peer serves,
whether the file system, the blob cache and the client's database let an operation through, what
becomes of a download that is written in place, and the server's answers to an upload. -/
structure Outcome where
  transferOk : Bool
  lan : Option Bytes
  /-- Of reading, removing and renaming a file. -/
  ioOk : Bool
  write : WriteAnswer
  cacheOk : Bool
  dbOk : Bool
  quotaOk : Bool
  retention : MetaDb.VersionRetention
  mtimeNs : ℤ
  now : ℤ

/-- What can happen at a site. -/
inductive SiteEvent where
  /-- A cycle starts: load the baselines, scan the directory. Either may fail. -/
  | start (loadOk scanOk : Bool) (stat : Path → FileStat)
  /-- The exchange; `ok` is `false` when it fails, which ends the cycle. -/
  | exchange (ok : Bool) (now : ℤ)
  /-- The next task of the cycle. -/
  | proceed (outcome : Outcome)
  /-- The user writes a file. -/
  | edit (path : Path) (bytes : Bytes)
  /-- The user deletes a file. -/
  | remove (path : Path)
  /-- Something else happens on the server. -/
  | others (e : Event)

/-! ## The steps of `execute` -/

/-- The ancestors known at the start of a cycle; none when the rows cannot be read.
Source: `daemon.rs`, `load_baselines_for_share` -/
def loadBaselinesForShare (rows : PathMap BaselineRow) (ok : Bool) : PathMap BaselineRow :=
  if ok then Table.eraseWhere (fun _ row => row.deleted) rows else ∅

/-- The snapshot a cycle sends: a scan that fails counts as a scan that found nothing.
Source: `sync_loop/wire.rs`, `execute` -/
def scanFiles (nodeId : NodeId) (scanOk : Bool) (stat : Path → FileStat) (disk : PathMap Bytes) :
    List FileMetadata :=
  if scanOk then snapshot blake3 .default nodeId ∅ stat disk else []

/-- The call a cycle makes. -/
def exchangeCall (cfg : ShareConfig) (files : List FileMetadata) (now : ℤ) : ExchangeCall where
  nodeId := cfg.nodeId
  role := cfg.role
  includes := cfg.includes
  files := files
  now := now

/-- The work an answer stands for, in the order it is done.
Source: `sync_loop/wire.rs`, `execute` -/
def tasksOf (cfg : ShareConfig) (r : SyncStateResponse) : List Task :=
  (if cfg.receiveOnly then [] else r.toUpload.map .upload) ++
    (r.toDownload.map .download ++ .saveDownloads ::
      (r.conflicts.map .readConflict ++ (r.toDelete.map .delete ++ [.saveDeletes])))

/-- The upload of a file, under the answers of the environment. -/
def uploadCall (cfg : ShareConfig) (path : Path) (bytes : Bytes) (o : Outcome) : UploadCall where
  nodeId := cfg.nodeId
  role := cfg.role
  includes := cfg.includes
  stream := uploadStream blake3 path bytes
  quotaOk := o.quotaOk
  retention := o.retention
  mtimeNs := o.mtimeNs
  now := o.now

/-- Source: `connection.rs`, `download_file` -/
def downloadFile (cfg : ShareConfig) (server : SyncServer) (o : Outcome) (path : Path) :
    Option Bytes :=
  if o.transferOk then (deltaDownload server cfg.role cfg.includes path).toOption else none

/-- What a peer serves, if it has the announced hash.
Source: `lan_sync/fetch.rs`, `try_lan_fetch` -/
def tryLanFetch (cfg : ShareConfig) (o : Outcome) (entry : FileMetadata) : Option Bytes :=
  if cfg.lanFetch then
    o.lan.filter fun bytes =>
      entry.contentHash.length != 32 || decide ((blake3 bytes).toList = entry.contentHash)
  else none

/-- The plaintext of a download, from a peer or the server.
Source: `sync_loop/wire.rs`, `execute` (download phase) -/
def fetchEntry (cfg : ShareConfig) (server : SyncServer) (o : Outcome) (entry : FileMetadata) :
    Option Bytes :=
  ((tryLanFetch blake3 cfg o entry).or (downloadFile cfg server o entry.path)).bind fun wire =>
    materializeDownloadedBytes blake3 noKey wire entry

/-- The server's side of a conflict: its entry must be there, and no peer is asked.
Source: `sync_loop/wire.rs`, `execute` (conflict phase) -/
def fetchRemote (cfg : ShareConfig) (server : SyncServer) (o : Outcome)
    (conflict : ConflictMessage) : Option Bytes :=
  (downloadFile cfg server o conflict.path).bind fun wire =>
    conflict.remoteFile.bind fun entry => materializeDownloadedBytes blake3 noKey wire entry

/-- The baseline a download records: the entry, with the hash and the size of the bytes written.
Source: `sync_loop/wire.rs`, `execute` (download phase) -/
def downloadedBaseline (entry : FileMetadata) (plaintext : Bytes) : FileMeta :=
  { protoToFileMeta entry with contentHash := blake3 plaintext, size := plaintext.length }

/-- The baseline a deletion records.
Source: `sync_loop/wire.rs`, `execute` (delete phase) -/
def removedBaseline (nodeId : NodeId) (path : Path) (now : ℤ) : FileMeta where
  path := path
  contentHash := zeroDigest
  size := 0
  mtimeNs := 0
  inode := none
  vectorClock := .new
  deleted := true
  deletedAt := some now
  nodeId := nodeId
  encryptionNonce := none
  versionId := none
  parentVersionId := none

/-- Source: `meta_db/node_baseline.rs`, `upsert_node_baselines` -/
def upsertNodeBaselines (rows : PathMap BaselineRow) (metas : List FileMeta) :
    PathMap BaselineRow :=
  Table.insertAll FileMeta.path baselineRowOfMeta rows metas

/-- The ancestor of a path: the blob under the hash of its baseline.
Source: `sync_loop/wire.rs`, `execute` (base lookup) -/
def baseBytes (s : Site) (c : Cycle) (path : Path) : Option Bytes :=
  (c.baselines.lookup path).bind fun row => s.blobCache.lookup row.contentHash

/-- Go on with the cycle. -/
def Site.goOn (s : Site) (c : Cycle) : Site := { s with phase := .working c }

/-- Go on with one more task in front. -/
def Site.goOnWith (s : Site) (c : Cycle) (task : Task) : Site :=
  s.goOn { c with tasks := task :: c.tasks }

section

variable (diffy : String → String → String → Except String String) (cfg : ShareConfig)

/-- The directory after a conflict is applied: a receive-only client takes the server's bytes, any
other merges or forks, under a temporary name first, so that an error changes nothing.
Source: `sync_loop/wire.rs`, `execute` (conflict phase) -/
def conflictDisk (s : Site) (c : Cycle) (o : Outcome) (conflict : ConflictMessage)
    (localBytes remotePlain : Bytes) : PathMap Bytes :=
  if cfg.receiveOnly then o.write.writeTo s.disk conflict.path remotePlain
  else match applyConflict diffy s.disk conflict.path (baseBytes s c conflict.path) localBytes
      remotePlain cfg.nodeId o.now o.ioOk with
    | .ok (_, disk) => disk
    | .error _ => s.disk

/-- One task; `c` is the cycle without it.
Source: `sync_loop/wire.rs`, `execute` -/
def doTask (s : Site) (c : Cycle) (o : Outcome) : Task → Site
  | .upload entry =>
    if isSyncEphemeralMarker entry.path || !o.ioOk then s.goOn c
    else match s.disk.lookup entry.path with
      | some bytes => s.goOnWith c (.sendUpload entry bytes)
      | none => s.goOn c
  | .sendUpload entry bytes =>
    if o.transferOk then
      { s with
        server := serverStep blake3 s.server (.upload (uploadCall blake3 cfg entry.path bytes o))
        phase := .working c }
    else s.goOn c
  | .download entry =>
    match fetchEntry blake3 cfg s.server o entry with
    | some plaintext => s.goOnWith c (.writeDownload entry plaintext)
    | none => s.goOn c
  | .writeDownload entry plaintext =>
    -- a write that fails may have truncated the file
    let s := { s with disk := o.write.writeTo s.disk entry.path plaintext }
    if o.write.isDone then
      { s with
        blobCache :=
          if o.cacheOk then putBlob s.blobCache (blake3 plaintext) plaintext else s.blobCache
        phase := .working
          { c with downloaded := c.downloaded ++ [downloadedBaseline blake3 entry plaintext] } }
    else s.goOn c
  | .saveDownloads =>
    { s with
      nodeBaselines :=
        if o.dbOk then upsertNodeBaselines s.nodeBaselines c.downloaded else s.nodeBaselines
      phase := .working c }
  | .readConflict conflict =>
    if isSyncEphemeralMarker conflict.path || !o.ioOk then s.goOn c
    else match s.disk.lookup conflict.path with
      | some localBytes => s.goOnWith c (.fetchConflict conflict localBytes)
      | none => s.goOn c
  | .fetchConflict conflict localBytes =>
    match fetchRemote blake3 cfg s.server o conflict with
    | some remotePlain => s.goOnWith c (.applyConflict conflict localBytes remotePlain)
    | none => s.goOn c
  | .applyConflict conflict localBytes remotePlain =>
    { s with
      disk := conflictDisk diffy cfg s c o conflict localBytes remotePlain
      phase := .working c }
  | .delete entry =>
    if (s.disk.lookup entry.path).isSome && !o.ioOk then s.goOn c
    else
      { s with
        disk := s.disk.erase entry.path
        phase := .working
          { c with removed := c.removed ++ [removedBaseline cfg.nodeId entry.path o.now] } }
  | .saveDeletes =>
    { s with
      nodeBaselines :=
        if o.dbOk then upsertNodeBaselines s.nodeBaselines c.removed else s.nodeBaselines
      phase := .working c }

/-- The exchange of a cycle. -/
def exchangeSite (s : Site) (baselines : PathMap BaselineRow) (files : List FileMetadata)
    (now : ℤ) : Site :=
  match exchangeState s.server.vaultId s.server.db (exchangeCall cfg files now) with
  | .ok (response, db) =>
    { s with
      server := { s.server with db := db }
      phase := .working
        { baselines := baselines
          files := files
          tasks := tasksOf cfg response
          downloaded := []
          removed := [] } }
  | .error _ => { s with phase := .idle }

/-- The event is an exchange under this node's name. -/
def isOwnExchange (e : Event) : Bool :=
  match e with
  | .exchange call => decide (call.nodeId = cfg.nodeId)
  | _ => false

/-- One event. An event that does not fit the phase changes nothing, and only the client itself
exchanges under its name. -/
def siteStep (s : Site) : SiteEvent → Site
  | .start loadOk scanOk stat =>
    match s.phase with
    | .idle =>
      { s with
        phase := .scanned (loadBaselinesForShare s.nodeBaselines loadOk)
          (scanFiles blake3 cfg.nodeId scanOk stat s.disk) }
    | _ => s
  | .exchange ok now =>
    match s.phase with
    | .scanned baselines files =>
      if ok then exchangeSite cfg s baselines files now else { s with phase := .idle }
    | _ => s
  | .proceed o =>
    match s.phase with
    | .working c =>
      match c.tasks with
      | [] => { s with phase := .idle }
      | task :: tasks => doTask blake3 diffy cfg s { c with tasks := tasks } o task
    | _ => s
  | .edit path bytes => { s with disk := s.disk.insert path bytes }
  | .remove path => { s with disk := s.disk.erase path }
  | .others e =>
    if isOwnExchange cfg e then s else { s with server := serverStep blake3 s.server e }

end

end

/-! ## A small site

A client of the empty server, for the runs that the development exhibits. -/

/-- A client of the small mesh without restrictions. -/
def sampleShare : ShareConfig :=
  { nodeId := "n", role := none, includes := [], receiveOnly := false, lanFetch := false }

/-- A merge that takes the side that changed, and reports a conflict when both did. -/
def sampleDiffy (base localText remote : String) : Except String String :=
  if localText = base then .ok remote
  else if remote = base then .ok localText
  else if localText = remote then .ok localText
  else .error ""

/-- The empty server and a client that has never synced. -/
def emptySite : Site where
  server := emptyWorld.server
  disk := ∅
  blobCache := ∅
  nodeBaselines := ∅
  phase := .idle

/-- Everything works. -/
def allOk : Outcome where
  transferOk := true
  lan := none
  ioOk := true
  write := .done
  cacheOk := true
  dbOk := true
  quotaOk := true
  retention := ⟨10, 1000⟩
  mtimeNs := 1
  now := 100

/-- A cycle starts, with everything working. -/
def startOk : SiteEvent := .start true true fun _ => ⟨none, 1⟩

/-- The client does its next tasks, with everything working. -/
def proceeds (n : ℕ) : List SiteEvent := List.replicate n (.proceed allOk)

/-- Someone writes a file below the server's share root, and the share index picks it up. -/
def indexed (path : Path) (bytes : Bytes) : List SiteEvent :=
  [.others (.serverEdit path bytes), .others (.indexEvent .upsert path ⟨none, 1⟩ 100)]

/-- A cycle that transfers one file, from start to end. -/
def oneTransfer : List SiteEvent := startOk :: .exchange true 100 :: proceeds 5

end DiskArcana.System
