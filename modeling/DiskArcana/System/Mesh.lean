import DiskArcana.Lib.Trace
import DiskArcana.Client.Files

/-!
# The mesh: one server, many nodes

A world is the server's state, every node's vault directory, and the last answer every node got. An
event is one thing that can happen: a node's call to the server, a user's edit, a step of the
client's cycle, a restore, a purge, a turn of the share indexer. `step` is total: a call that the
server refuses, or a transfer that is cut off, leaves the world as it was.

The snapshot in an exchange is arbitrary, so a run is any sequence of calls by any clients; the
runs of clients that send what they scan and do what they are told are those whose events are
`Faithful`.
-/

namespace DiskArcana.System

open DiskArcana.Core DiskArcana.Lib DiskArcana.Server DiskArcana.Client

/-- The server, the nodes' vault directories, and the answers they work on. -/
structure World where
  server : SyncServer
  disk : NodeId → PathMap Bytes
  answer : NodeId → SyncStateResponse

/-- What can happen. -/
inductive Event where
  /-- A node exchanges state with the server. -/
  | exchange (call : ExchangeCall)
  /-- A node uploads a file. -/
  | upload (call : UploadCall)
  /-- A node downloads an entry; `ok` is `false` when the transfer or the local write fails. -/
  | download (nodeId : NodeId) (role : Option EnforcedRole) (includes : List String)
      (entry : FileMetadata) (ok : Bool)
  /-- A node's client removes a path it was told to delete; `ok` is `false` when that fails. -/
  | applyDelete (nodeId : NodeId) (path : Path) (ok : Bool)
  /-- A node's user writes a file. -/
  | edit (nodeId : NodeId) (path : Path) (bytes : Bytes)
  /-- A node's user deletes a file. -/
  | remove (nodeId : NodeId) (path : Path)
  | restoreTrash (path : Path) (c : RestoreCall)
  | restoreVersion (path : Path) (versionId : ℕ) (c : RestoreCall)
  | restoreSnapshot (files : List SnapshotFile) (c : RestoreCall)
  | pruneExpiredTrash (maxAgeSecs now : ℤ)
  | deleteTrashItem (path : Path)
  | emptyTrash
  /-- Someone writes a file below the server's share root. -/
  | serverEdit (path : Path) (bytes : Bytes)
  /-- Someone deletes a file below the server's share root. -/
  | serverRemove (path : Path)
  | indexEvent (kind : IndexEventKind) (path : Path) (stat : FileStat) (now : ℤ)
  | fullReconcile (stat : Path → FileStat) (now : ℤ)

section

variable (blake3 : Bytes → Digest) (decrypt : Bytes → Bytes → Option Bytes)

/-- The plaintext of a download that is served and passes the client's check. -/
def fetch (s : SyncServer) (role : Option EnforcedRole) (includes : List String)
    (entry : FileMetadata) : Option Bytes :=
  (deltaDownload s role includes entry.path).toOption.bind fun wire =>
    materializeDownloadedBytes blake3 decrypt wire entry

/-- Replace one node's vault directory. -/
def World.withDisk (w : World) (nodeId : NodeId) (disk : PathMap Bytes) : World :=
  { w with disk := Function.update w.disk nodeId disk }

/-- Replace the server's store. -/
def World.withDb (w : World) (db : MetaDb) : World :=
  { w with server := { w.server with db := db } }

/-- An exchange: the store and the caller's answer are replaced. -/
def exchangeStep (w : World) (call : ExchangeCall) : World :=
  match exchangeState w.server.vaultId w.server.db call with
  | .ok (response, db) =>
    { w.withDb db with answer := Function.update w.answer call.nodeId response }
  | .error _ => w

/-- An upload, which changes nothing when it is refused. -/
def uploadStep (w : World) (call : UploadCall) : World :=
  match deltaUpload blake3 w.server call with
  | .ok server => { w with server := server }
  | .error _ => w

/-- A download, which changes nothing when it is refused, cut off or fails its check. -/
def downloadStep (w : World) (nodeId : NodeId) (role : Option EnforcedRole)
    (includes : List String) (entry : FileMetadata) (ok : Bool) : World :=
  match fetch blake3 decrypt w.server role includes entry with
  | some bytes => if ok then w.withDisk nodeId ((w.disk nodeId).insert entry.path bytes) else w
  | none => w

/-- One event. -/
def step (w : World) : Event → World
  | .exchange call => exchangeStep w call
  | .upload call => uploadStep blake3 w call
  | .download nodeId role includes entry ok =>
    downloadStep blake3 decrypt w nodeId role includes entry ok
  | .applyDelete nodeId path ok =>
    if ok then w.withDisk nodeId ((w.disk nodeId).erase path) else w
  | .edit nodeId path bytes => w.withDisk nodeId ((w.disk nodeId).insert path bytes)
  | .remove nodeId path => w.withDisk nodeId ((w.disk nodeId).erase path)
  | .restoreTrash path c => { w with server := restoreTrash blake3 w.server path c }
  | .restoreVersion path versionId c =>
    { w with server := restoreVersion w.server path versionId c }
  | .restoreSnapshot files c => { w with server := restoreSnapshot blake3 w.server files c }
  | .pruneExpiredTrash maxAgeSecs now =>
    w.withDb (w.server.db.pruneExpiredTrash maxAgeSecs now)
  | .deleteTrashItem path => w.withDb (w.server.db.deleteTrashItem path)
  | .emptyTrash => w.withDb w.server.db.emptyTrash
  | .serverEdit path bytes =>
    { w with server := { w.server with shareTree := w.server.shareTree.insert path bytes } }
  | .serverRemove path =>
    { w with server := { w.server with shareTree := w.server.shareTree.erase path } }
  | .indexEvent kind path stat now =>
    { w with server := indexEvent blake3 w.server kind path stat now }
  | .fullReconcile stat now => { w with server := fullReconcile blake3 w.server stat now }

/-- An exchange, with the answer and the store written out. -/
theorem step_exchange (w : World) (call : ExchangeCall) :
    step blake3 decrypt w (.exchange call) =
      { w.withDb (exchangeDb w.server.vaultId w.server.db call) with
        answer := Function.update w.answer call.nodeId
          (exchangeResponse w.server.vaultId w.server.db call) } := by
  show exchangeStep w call = _
  unfold exchangeStep
  rw [exchangeState_eq]

/-- The answer the caller of an exchange works on. -/
theorem answer_step_exchange (w : World) (call : ExchangeCall) :
    (step blake3 decrypt w (.exchange call)).answer call.nodeId =
      exchangeResponse w.server.vaultId w.server.db call := by
  rw [step_exchange]
  exact Function.update_self _ _ _

/-! ## Rows and baselines of a world -/

/-- The row of a path. -/
def World.row (w : World) (path : Path) : Option FileMeta := w.server.db.getFileScoped path

/-- The stored baseline of a node at a path. -/
def World.base (w : World) (nodeId : NodeId) (path : Path) : Option FileMeta :=
  w.server.db.baselineAt nodeId path

/-- A step turns the live row of a path into a tombstone. -/
def TurnsToTombstone (w : World) (e : Event) (path : Path) : Prop :=
  side (w.row path) = .live ∧ side ((step blake3 decrypt w e).row path) = .tomb

/-- The row after an exchange. -/
theorem row_step_exchange (w : World) (call : ExchangeCall) (path : Path) :
    (step blake3 decrypt w (.exchange call)).row path =
      if Tombstones w.server.db call path then (w.row path).map (tombstone call.now)
      else w.row path := by
  rw [step_exchange]
  show ((exchangeDb w.server.vaultId w.server.db call).files.lookup path).map (rowToMeta path) = _
  rw [lookup_exchangeDb_files]
  unfold World.row MetaDb.getFileScoped
  split_ifs
  · rw [Option.map_map, Option.map_map]
    rfl
  · rfl

/-- A row that takes part is the server's entry. -/
theorem serverAt_eq_row {w : World} {path : Path} (h : isSyncEphemeralMarker path = false) :
    serverAt w.server.db path = w.row path := by
  simp [serverAt, visible, h, World.row]

/-- The live content of the server's entry is that of the row. -/
theorem liveHash_row_of_serverAt {w : World} {path : Path} {h : Digest}
    (hl : liveHash (serverAt w.server.db path) = some h) : liveHash (w.row path) = some h := by
  unfold serverAt visible at hl
  split_ifs at hl
  · exact hl
  · cases hl

/-- An exchange turns a live row into a tombstone exactly on a delete-local verdict. -/
theorem turnsToTombstone_exchange {w : World} {call : ExchangeCall} {path : Path} :
    TurnsToTombstone blake3 decrypt w (.exchange call) path ↔ Tombstones w.server.db call path := by
  unfold TurnsToTombstone
  rw [row_step_exchange]
  constructor
  · rintro ⟨hl, ht⟩
    split_ifs at ht with h
    · exact h
    · rw [hl] at ht
      cases ht
  · intro h
    have hlive : side (w.row path) = .live := by
      rcases he : isSyncEphemeralMarker path with _ | _
      · rw [← serverAt_eq_row he]
        exact h.1
      · have := h.1
        rw [(entries_of_ephemeral he w.server.db call).1] at this
        cases this
    refine ⟨hlive, ?_⟩
    rw [if_pos h]
    obtain ⟨m, hm, -⟩ := side_eq_live_iff.mp hlive
    rw [hm]
    rfl

/-- The row of a path after an operation that writes allowed rows. -/
theorem row_of_rowsWritten {P : Path → FileRow → Prop} {w w' : World}
    (h : RowsWritten P w.server w'.server) (path : Path) :
    w'.row path = w.row path ∨ ∃ row, w'.row path = some (rowToMeta path row) ∧ P path row := by
  unfold World.row MetaDb.getFileScoped
  rcases h.rows path with h | ⟨row, h, hP⟩
  · exact Or.inl (by rw [h])
  · exact Or.inr ⟨row, by rw [h]; rfl, hP⟩

/-- **Only an exchange writes baselines.** -/
theorem nodeBaselines_step {w : World} {e : Event} (h : ∀ call, e ≠ .exchange call) :
    (step blake3 decrypt w e).server.db.nodeBaselines = w.server.db.nodeBaselines := by
  cases e with
  | exchange call => exact absurd rfl (h call)
  | upload call =>
      show (uploadStep blake3 w call).server.db.nodeBaselines = _
      unfold uploadStep
      split
      · rename_i server hu
        exact (deltaUpload_rows blake3 hu).baselines
      · rfl
  | download nodeId role includes entry ok =>
      show (downloadStep blake3 decrypt w nodeId role includes entry ok).server.db.nodeBaselines = _
      unfold downloadStep
      split
      · split_ifs <;> rfl
      · rfl
  | applyDelete nodeId path ok => cases ok <;> rfl
  | edit nodeId path bytes => rfl
  | remove nodeId path => rfl
  | restoreTrash path c => exact (restoreTrash_rows blake3 w.server path c).baselines
  | restoreVersion path versionId c =>
      exact (restoreVersion_rows w.server path versionId c).baselines
  | restoreSnapshot files c => exact (restoreSnapshot_rows blake3 w.server files c).baselines
  | pruneExpiredTrash maxAgeSecs now => rfl
  | deleteTrashItem path => rfl
  | emptyTrash => rfl
  | serverEdit path bytes => rfl
  | serverRemove path => rfl
  | indexEvent kind path stat now =>
      exact (indexEvent_rows blake3 w.server kind path stat now).baselines
  | fullReconcile stat now => exact (fullReconcile_rows blake3 w.server stat now).baselines

/-- The baselines after an exchange. -/
theorem baseAt_step_exchange (w : World) (call : ExchangeCall) (nodeId : NodeId) (path : Path) :
    baseAt (step blake3 decrypt w (.exchange call)).server.db nodeId path =
      baseAt (exchangeDb w.server.vaultId w.server.db call) nodeId path := by
  rw [step_exchange]
  rfl

/-- The baseline entry of a node after a step: rewritten by the node's own exchange, kept by
everything else. -/
theorem baseAt_step (w : World) (e : Event) (nodeId : NodeId) (path : Path) :
    (∃ call, e = .exchange call ∧ call.nodeId = nodeId ∧
      baseAt (step blake3 decrypt w e).server.db nodeId path =
        ((nextBaseline w.server.db call path).map (asBaseline path)).or
          (baseAt w.server.db nodeId path)) ∨
      (∀ call, e = .exchange call → call.nodeId ≠ nodeId) ∧
        baseAt (step blake3 decrypt w e).server.db nodeId path = baseAt w.server.db nodeId path := by
  by_cases he : ∃ call, e = .exchange call
  · obtain ⟨call, rfl⟩ := he
    rw [step_exchange]
    by_cases hn : call.nodeId = nodeId
    · subst hn
      exact Or.inl ⟨call, rfl, rfl, baseAt_exchangeDb _ _ _ _⟩
    · refine Or.inr ⟨?_, baseAt_exchangeDb_of_ne _ _ _ (Ne.symm hn) _⟩
      rintro c hc
      cases hc
      exact hn
  · push Not at he
    refine Or.inr ⟨fun call hc => absurd hc (he call), ?_⟩
    unfold baseAt visible MetaDb.baselineAt
    rw [nodeBaselines_step blake3 decrypt he]

/-! ## Clients that follow the protocol -/

/-- The client behind an event sends what it scans and does what it is told: an exchange carries
the snapshot of the node's files, with no cached rows; an upload carries the bytes of a file the
last answer asked for; downloads and deletions are of entries the last answer lists. -/
def Faithful (filter : Filter) (w : World) (e : Event) : Prop :=
  match e with
  | .exchange call =>
    ∃ stat, call.files = snapshot blake3 filter call.nodeId ∅ stat (w.disk call.nodeId)
  | .upload call => ∃ path, Listed (w.answer call.nodeId).toUpload path ∧
      (w.disk call.nodeId).lookup path = some (uploadBytes call) ∧
      ∀ first ∈ call.stream.head?, first.path = path
  | .download nodeId _ _ entry _ => entry ∈ (w.answer nodeId).toDownload
  | .applyDelete nodeId path _ => Listed (w.answer nodeId).toDelete path
  | _ => True

/-- What a faithful exchange reports at a path: the file that is there, if the walk reaches it and
the filter lets it through, and never a tombstone. -/
theorem Faithful.clientAt {filter : Filter} {w : World} {call : ExchangeCall}
    (hf : Faithful blake3 filter w (.exchange call)) (path : Path) :
    (side (clientAt call.files path) = .live ∧ isWalkPath path = true ∧
      filter.isExcluded path = false ∧ (w.disk call.nodeId).lookup path ≠ none) ∨
    (clientAt call.files path = none ∧ ¬ (isWalkPath path = true ∧
      filter.isExcluded path = false ∧ (w.disk call.nodeId).lookup path ≠ none)) := by
  obtain ⟨stat, hfiles⟩ := hf
  rw [hfiles]
  exact side_clientAt_snapshot blake3 filter call.nodeId ∅ stat (w.disk call.nodeId) path

/-- The entry a faithful exchange reports: the file's content, with the empty clock. -/
theorem Faithful.of_clientAt {filter : Filter} {w : World} {call : ExchangeCall}
    (hf : Faithful blake3 filter w (.exchange call)) {path : Path} {m : FileMeta}
    (hm : Server.clientAt call.files path = some m) :
    m.vectorClock = .new ∧ m.deleted = false ∧ m.encryptionNonce = none ∧
      (w.disk call.nodeId).lookup path ≠ none ∧
      ∀ bytes, (w.disk call.nodeId).lookup path = some bytes → m.contentHash = blake3 bytes := by
  obtain ⟨stat, hfiles⟩ := hf
  rw [hfiles, clientAt_snapshot] at hm
  split_ifs at hm
  obtain ⟨bytes, hbytes, rfl⟩ := Option.map_eq_some_iff.mp hm
  refine ⟨rfl, rfl, rfl, by simp [hbytes], fun other hother => ?_⟩
  rw [hbytes] at hother
  cases hother
  exact digestOfBytes_toList _

end

/-! ## A small mesh

A server without rows or baselines, and three one-byte contents with their blake3 digests: the
start of the runs that the development exhibits. -/

/-- The blake3 digests of `a`, `b`, `c` and, standing for the rest, of the empty file. -/
def sampleBlake3 (bytes : Bytes) : Digest :=
  if bytes = [97] then
    ⟨[23, 118, 47, 221, 217, 105, 164, 83, 146, 93, 101, 113, 122, 195, 238, 162, 19, 32, 182, 107,
      84, 52, 47, 222, 21, 18, 141, 108, 175, 33, 33, 95], rfl⟩
  else if bytes = [98] then
    ⟨[16, 229, 207, 61, 60, 138, 79, 159, 52, 104, 200, 204, 88, 238, 168, 72, 146, 162, 47, 218,
      219, 193, 172, 178, 36, 16, 25, 0, 68, 193, 213, 83], rfl⟩
  else if bytes = [99] then
    ⟨[234, 122, 161, 252, 158, 253, 190, 16, 109, 187, 112, 54, 154, 117, 233, 103, 31, 162, 157,
      82, 189, 85, 83, 103, 17, 191, 25, 116, 119, 184, 240, 33], rfl⟩
  else
    ⟨[175, 19, 73, 185, 245, 249, 161, 166, 160, 64, 77, 234, 54, 220, 201, 73, 155, 203, 37, 201,
      173, 193, 18, 183, 204, 154, 147, 202, 228, 31, 50, 98], rfl⟩

/-- A client without a vault key. -/
def noKey : Bytes → Bytes → Option Bytes := fun _ _ => none

/-- An answer without work. -/
def emptyAnswer : SyncStateResponse := ⟨[], [], [], [], .new⟩

/-- A single-tenant server without files, and nodes without files. -/
def emptyWorld : World where
  server :=
    { vaultId := "vault"
      serverNodeId := "server"
      db := { tenantId := none, files := ∅, nodeBaselines := ∅, fileVersions := [], conflicts := [] }
      shareTree := ∅
      syncTree := ∅
      ownRoot := false
      versionBlobs := ∅ }
  disk := fun _ => ∅
  answer := fun _ => emptyAnswer

/-- An unrestricted exchange of a node that sends the given files. -/
def sampleExchange (nodeId : NodeId) (files : List FileMetadata) : Event :=
  .exchange { nodeId := nodeId, role := none, includes := [], files := files, now := 100 }

/-- An unrestricted upload of a whole file in one chunk. -/
def sampleUpload (nodeId : NodeId) (path : Path) (bytes : Bytes) : Event :=
  .upload
    { nodeId := nodeId
      role := none
      includes := []
      stream := [⟨path, (sampleBlake3 bytes).toList, [⟨bytes, (sampleBlake3 bytes).toList⟩]⟩]
      quotaOk := true
      retention := ⟨10, 1000⟩
      mtimeNs := 1
      now := 100 }

/-- The snapshot entry of a file. -/
def sampleFile (path : Path) (bytes : Bytes) : FileMetadata :=
  { path := path, contentHash := (sampleBlake3 bytes).toList, size := bytes.length, mtimeNs := 1 }

/-- A move of a client in the small mesh: the event it makes of the world it finds. -/
abbrev Move := World → Event

/-- The node scans its files and exchanges state. -/
def sync (nodeId : NodeId) : Move := fun w =>
  sampleExchange nodeId
    (snapshot sampleBlake3 .default nodeId ∅ (fun _ => ⟨none, 1⟩) (w.disk nodeId))

/-- The node uploads a file as it finds it. -/
def push (nodeId : NodeId) (path : Path) : Move := fun w =>
  sampleUpload nodeId path (((w.disk nodeId).lookup path).getD [])

/-- The node downloads the entry its last answer lists at a path. -/
def pull (nodeId : NodeId) (path : Path) (ok : Bool) : Move := fun w =>
  .download nodeId none []
    (((w.answer nodeId).toDownload.find? fun m => decide (m.path = path)).getD (sampleFile path [])) ok

/-- The events that a sequence of moves makes of a world. -/
def play (w : World) : List Move → List Event
  | [] => []
  | m :: ms => m w :: play (step sampleBlake3 noKey w (m w)) ms

instance (l : List FileMetadata) (path : Path) : Decidable (Listed l path) :=
  inferInstanceAs (Decidable (∃ m ∈ l, m.path = path))

/-- A check for faithful events of the small mesh. -/
def checkFaithful (w : World) (e : Event) : Bool :=
  match e with
  | .exchange call => decide (call.files =
      snapshot sampleBlake3 .default call.nodeId ∅ (fun _ => ⟨none, 1⟩) (w.disk call.nodeId))
  | .upload call => call.stream.head?.any fun first =>
      decide (Listed (w.answer call.nodeId).toUpload first.path) &&
        decide ((w.disk call.nodeId).lookup first.path = some (uploadBytes call))
  | .download nodeId _ _ entry _ => decide (entry ∈ (w.answer nodeId).toDownload)
  | .applyDelete nodeId path _ => decide (Listed (w.answer nodeId).toDelete path)
  | _ => true

theorem faithful_of_check {w : World} {e : Event} (h : checkFaithful w e = true) :
    Faithful sampleBlake3 .default w e := by
  cases e with
  | exchange call => exact ⟨_, of_decide_eq_true h⟩
  | upload call =>
      obtain ⟨first, hfirst, hboth⟩ := (Option.any_eq_true _ _).mp h
      obtain ⟨hlisted, hbytes⟩ := (Bool.and_eq_true _ _).mp hboth
      refine ⟨first.path, of_decide_eq_true hlisted, of_decide_eq_true hbytes, ?_⟩
      intro other hother
      rw [hfirst] at hother
      cases hother
      rfl
  | download nodeId role includes entry ok =>
      exact (of_decide_eq_true h : entry ∈ (w.answer nodeId).toDownload)
  | applyDelete nodeId path ok =>
      exact (of_decide_eq_true h : Listed (w.answer nodeId).toDelete path)
  | _ => trivial

end DiskArcana.System
