import DiskArcana.Lib.Trace
import DiskArcana.System.Convergence
import DiskArcana.System.Downloads

/-!
# Scan after scan of an encrypted vault

A ciphertext is different each time a file is encrypted, so a client that reports its files must know
the ciphertext that it sent or fetched. It writes that into its store, under the vault that has the
share's name; the scan and the overlay read the rows of the vault `default`. All shares of a daemon use
one store, and each cycle starts with an empty cache.

`Shares` is the store, the directory of each share and, for the record, the last transfer of each file.
Scans and transfers of any shares follow one another in any order, each with a `RemoteSync` of its own.
-/

namespace DiskArcana.System

open DiskArcana.Core DiskArcana.Lib DiskArcana.Server DiskArcana.Client

/-- What a scan meets: besides times, readings and nonces, whether the walk succeeds, and whether the
store answers each of the three times that it is asked. -/
structure ReportEnv extends ScanEnv where
  scanOk : Bool
  lastKnownOk : Bool
  overlayOk : Bool
  versionsOk : Bool

/-- What an upload meets: whether the file can be read, the nonce that is drawn, whether the server
takes it, under which name and at which time, and what the store and the file system say then. -/
structure UploadEnv where
  readOk : Bool
  nonce : Nonce
  accepted : Bool
  serverNodeId : NodeId
  receivedAt : ℤ
  dbOk : Bool
  mtimeNs : ℤ

/-- What a conflict of a receive-only share meets. -/
structure ConflictEnv where
  /-- What `download_file` gives. -/
  server : Option Bytes
  write : WriteAnswer
  mtimeNs : ℤ

/-- A transfer of a file: the plaintext and the time of the file, the nonce of the ciphertext (empty for
plaintext), whether the client's row of it was written, and what the server's row holds. -/
structure Transfer where
  bytes : Bytes
  mtimeNs : ℤ
  nonce : Bytes
  saved : Bool
  held : FileMeta

/-- The rows under the keys by which the overlay looks for them.
Source: `sync_loop/wire.rs`, `overlay_e2ee_exchange_files` -/
def dbIndex (rows : List FileMeta) : Table String FileMeta :=
  Table.collect (fun m => vaultRelativePathKey m.path) rows

namespace RemoteSync

section

variable (blake3 : Bytes → Digest) (aead : Aead) (sync : RemoteSync)

/-! ## The report -/

/-- What `list_all_files` gives a cycle; nothing without a store. -/
def knownRows (rows : ClientRows) (ok : Bool) : List FileMeta :=
  if sync.hasMetaDb && ok then rows.listAllFiles else []

/-- Source: `sync_loop/wire.rs`, `execute` (scan phase) -/
def scanned (rows : ClientRows) (env : ReportEnv) (disk : PathMap Bytes) : List FileMeta :=
  scan blake3 .default sync.nodeId (indexByPath (sync.knownRows rows env.lastKnownOk)) env.stat disk

/-- The scanned entries, with a key under the ciphertexts that are known or made.
Source: `sync_loop/wire.rs`, `execute` (scan phase) -/
def overlaid (rows : ClientRows) (env : ReportEnv) (disk : PathMap Bytes) : List FileMeta :=
  match sync.e2eeKey with
  | some key => (overlayE2eeExchangeFiles blake3 aead key (dbIndex (sync.knownRows rows env.overlayOk))
      env.read env.nonce ∅ (sync.scanned blake3 rows env disk)).1
  | none => sync.scanned blake3 rows env disk

/-- The snapshot of a cycle.
Source: `sync_loop/wire.rs`, `execute` (`local_files`) -/
def localFiles (rows : ClientRows) (env : ReportEnv) (disk : PathMap Bytes) : List FileMetadata :=
  if sync.scanRoot.isEmpty || !env.scanOk then []
  else (overlayVersionIdsFromDb (sync.overlaid blake3 aead rows env disk)
    (dbIndex (sync.knownRows rows env.versionsOk))).map fileMetaToProto

/-! ## Transfers -/

/-- Source: `sync_loop/wire.rs`, `execute` (upload phase) -/
def uploadPayload (bytes : Bytes) (nonce : Nonce) : Option UploadPayload :=
  match sync.e2eeKey with
  | some key => fromPlaintextEncrypted blake3 aead bytes key nonce
  | none => some ⟨bytes, blake3 bytes, []⟩

/-- What is sent for an entry of `to_upload` and taken by the server.
Source: `sync_loop/wire.rs`, `execute` (upload phase) -/
def sent (disk : PathMap Bytes) (entry : FileMetadata) (env : UploadEnv) :
    Option (Bytes × UploadPayload) :=
  if isSyncEphemeralMarker entry.path || !env.readOk || !env.accepted then none
  else (disk.lookup entry.path).bind fun bytes =>
    (sync.uploadPayload blake3 aead bytes env.nonce).map fun payload => (bytes, payload)

/-- The rows after the ciphertext of a file is written down; plaintext is not. -/
def remember (rows : ClientRows) (path : Path) (hash : Digest) (nonce : Bytes) (dbOk : Bool)
    (mtimeNs : ℤ) (size : ℕ) : ClientRows :=
  if nonce.isEmpty then rows
  else ((⟨∅, rows⟩ : WireIndex).persistE2eeWireMeta sync.nodeId sync.share sync.hasMetaDb dbOk path hash
    nonce mtimeNs size).rows

/-- The bytes of a conflict that a receive-only share takes over.
Source: `sync_loop/wire.rs`, `execute` (conflict phase) -/
def remotePlain (remote : FileMetadata) (env : ConflictEnv) : Option Bytes :=
  env.server.bind fun wire => sync.materialize blake3 aead remote wire

end

end RemoteSync

/-! ## Runs -/

/-- The shares of one daemon. -/
structure Shares where
  /-- The store, which all shares use. -/
  rows : ClientRows
  disk : String → PathMap Bytes
  /-- The last transfer of each file. -/
  moved : Table (String × Path) Transfer

/-- What happens to the shares. -/
inductive ShareEvent where
  /-- A cycle reports its files. -/
  | scan (sync : RemoteSync) (env : ReportEnv)
  /-- A cycle comes to an entry of `to_upload`. -/
  | upload (sync : RemoteSync) (entry : FileMetadata) (env : UploadEnv)
  /-- A cycle comes to an entry of `to_download`. -/
  | download (sync : RemoteSync) (entry : FileMetadata) (env : DownloadEnv)
  /-- A cycle of a receive-only share comes to a conflict. -/
  | serverWins (sync : RemoteSync) (remote : FileMetadata) (env : ConflictEnv)
  /-- A file is written or removed: by the user, by a conflict of any other share, or by a deletion. -/
  | change (share : String) (path : Path) (contents : Option Bytes)

namespace Shares

/-- The shares of a daemon that has transferred nothing yet. -/
def start (rows : ClientRows) (disk : String → PathMap Bytes) : Shares := ⟨rows, disk, ∅⟩

section

variable (blake3 : Bytes → Digest) (aead : Aead) (s : Shares)

/-- Source: `sync_loop/wire.rs`, `execute` (upload phase) -/
def upload (sync : RemoteSync) (entry : FileMetadata) (env : UploadEnv) : Shares :=
  match sync.sent blake3 aead (s.disk sync.share) entry env with
  | none => s
  | some (bytes, payload) =>
    { s with
      rows := sync.remember s.rows entry.path payload.contentHash payload.encryptionNonce env.dbOk
        env.mtimeNs bytes.length
      moved := s.moved.insert (sync.share, entry.path)
        { bytes := bytes
          mtimeNs := env.mtimeNs
          nonce := payload.encryptionNonce
          saved := sync.hasMetaDb && env.dbOk
          held := uploadedMeta env.serverNodeId entry.path (blake3 payload.wireBytes)
            payload.wireBytes.length env.receivedAt } }

/-- The transfer of an entry that the server lists and the client has written. -/
def fetched (entry : FileMetadata) (bytes : Bytes) (mtimeNs : ℤ) (saved : Bool) : Transfer where
  bytes := bytes
  mtimeNs := mtimeNs
  nonce := entry.encryptionNonce
  saved := saved
  held := protoToFileMeta entry

/-- Source: `sync_loop/wire.rs`, `execute` (download phase) -/
def download (sync : RemoteSync) (entry : FileMetadata) (env : DownloadEnv) : Shares :=
  let st := sync.downloads blake3 aead (.start none (s.disk sync.share) ∅ ⟨∅, s.rows⟩) [(entry, env)]
  { rows := st.index.rows
    disk := Function.update s.disk sync.share st.disk
    moved :=
      if sync.scanRoot.isEmpty then s.moved
      else match sync.landing blake3 aead (entry, env) with
        | .written plaintext => s.moved.insert (sync.share, entry.path)
            (fetched entry plaintext env.mtimeNs (sync.hasMetaDb && env.dbOk))
        | _ => s.moved }

/-- The server's copy replaces the file, and nothing is written down.
Source: `sync_loop/wire.rs`, `execute` (conflict phase) -/
def serverWins (sync : RemoteSync) (remote : FileMetadata) (env : ConflictEnv) : Shares :=
  match sync.remotePlain blake3 aead remote env with
  | none => s
  | some plaintext =>
    if env.write.isDone then
      { s with
        disk := Function.update s.disk sync.share ((s.disk sync.share).insert remote.path plaintext)
        moved := s.moved.insert (sync.share, remote.path)
          (fetched remote plaintext env.mtimeNs false) }
    else
      { s with
        disk := Function.update s.disk sync.share
          (env.write.writeTo (s.disk sync.share) remote.path plaintext) }

/-- One event. -/
def step : ShareEvent → Shares
  | .scan _ _ => s
  | .upload sync entry env => s.upload blake3 aead sync entry env
  | .download sync entry env => s.download blake3 aead sync entry env
  | .serverWins sync remote env => s.serverWins blake3 aead sync remote env
  | .change share path contents =>
    { s with
      disk := Function.update s.disk share (match contents with
        | some bytes => (s.disk share).insert path bytes
        | none => (s.disk share).erase path) }

end

/-! ## The law -/

/-- The file was last moved so, and has its bytes and its time since then. -/
def Kept (s : Shares) (share : String) (env : ReportEnv) (path : Path) (t : Transfer) : Prop :=
  s.moved.lookup (share, path) = some t ∧ (s.disk share).lookup path = some t.bytes ∧
    (env.stat path).mtimeNs = t.mtimeNs

/-- The file is synced in plaintext: it was last moved so and is kept, or it is not kept and the cycle
has no key. -/
def InPlaintext (s : Shares) (sync : RemoteSync) (env : ReportEnv) (path : Path) : Prop :=
  (∃ t, s.Kept sync.share env path t ∧ t.nonce = []) ∨
    ((∀ t, ¬ s.Kept sync.share env path t) ∧ sync.e2eeKey = none)

end Shares

/-- The row was written for another share. -/
def isForeign (share : String) (key : String × Path) (_ : FileRow) : Bool := decide (key.1 ≠ share)

/-- The row is that of a ciphertext. -/
def isCiphertext (_ : String × Path) (row : FileRow) : Bool :=
  row.encryptionNonce.any fun nonce => !nonce.isEmpty

/-- What an entry says of the contents of its file. -/
def wireIndexOf (f : FileMetadata) : Path × Bytes × Bytes := (f.path, f.contentHash, f.encryptionNonce)

section

variable (blake3 : Bytes → Digest) (aead : Aead)

/-- What a report owes to the server and to the other shares. -/
structure Steady (s : Shares) (sync : RemoteSync) (env : ReportEnv) : Prop where
  /-- A file that is kept since it was moved encrypted is reported with the hash that the server has. -/
  hash : ∀ path t, s.Kept sync.share env path t → t.nonce ≠ [] →
    ∃ f ∈ sync.localFiles blake3 aead s.rows env (s.disk sync.share),
      f.path = path ∧ f.contentHash = t.held.contentHash.toList
  /-- So a server that still has it asks for nothing there and finds no conflict. -/
  quiet : ∀ path t, s.Kept sync.share env path t → t.nonce ≠ [] → ∀ vaultId db call,
    call.files = sync.localFiles blake3 aead s.rows env (s.disk sync.share) →
    liveHash (serverAt db path) = some t.held.contentHash →
      Unlisted (exchangeResponse vaultId db call) path
  /-- Whatever the rows of other shares say, the report has the same hashes and nonces. -/
  own : ∀ g, (sync.localFiles blake3 aead (s.rows.relabel (isForeign sync.share) g) env
      (s.disk sync.share)).map wireIndexOf =
    (sync.localFiles blake3 aead s.rows env (s.disk sync.share)).map wireIndexOf
  /-- A file that is synced in plaintext is reported so, with the same hash whatever the rows of
  ciphertexts say. -/
  plain : ∀ path, s.InPlaintext sync env path →
    ∀ f ∈ sync.localFiles blake3 aead s.rows env (s.disk sync.share), f.path = path →
      f.encryptionNonce = [] ∧
        ∀ g, ∃ f' ∈ sync.localFiles blake3 aead (s.rows.relabel isCiphertext g) env (s.disk sync.share),
          f'.path = path ∧ f'.contentHash = f.contentHash

/-- The law in full: the nonce is the server's, too. -/
structure Rescans (s : Shares) (sync : RemoteSync) (env : ReportEnv) : Prop
    extends Steady blake3 aead s sync env where
  nonce : ∀ path t, s.Kept sync.share env path t → t.nonce ≠ [] →
    ∃ f ∈ sync.localFiles blake3 aead s.rows env (s.disk sync.share), f.path = path ∧
      f.contentHash = t.held.contentHash.toList ∧ f.encryptionNonce = t.held.encryptionNonce.getD []

end

end DiskArcana.System
