import DiskArcana.Core.Proto
import DiskArcana.Core.Fork
import DiskArcana.Core.ReconcilerLaws
import DiskArcana.Server.MetaDb

/-!
# State exchange

`exchange_state` of `disk-server/src/services/sync.rs`: reconcile the server's rows (the engine's
local side) with the caller's snapshot (remote) over the caller's stored baseline (indexed), turn
the actions into work lists for the caller, tombstone the rows the caller deleted, and write the
baseline the caller *should* hold once it has done its work.

Stored baselines carry no inode, so the rename pass never fires here, and everything an exchange
does at a path is a function of the three entries of that path. The second half of the module
states that pointwise; the system proofs use only those statements.
-/

namespace DiskArcana.Server

open DiskArcana.Core DiskArcana.Lib

/-- The role the access list assigns to a caller.
Source: `acl/mod.rs`, `EnforcedRole` -/
inductive EnforcedRole where
  | bidirectional
  | receiveOnly
  | sendOnly
  | publisher
  deriving DecidableEq, Repr

/-- What `exchange_state` reads: the authenticated caller, its resolved role (`none` when no role
is enforced, which restricts nothing), its selective-sync list, the snapshot it sent, and the wall
clock in seconds. -/
structure ExchangeCall where
  nodeId : NodeId
  role : Option EnforcedRole
  includes : List String
  files : List FileMetadata
  now : ℤ

/-- The rows that take part.
Source: `services/sync.rs`, `exchange_state` -/
def serverFiles (db : MetaDb) : List FileMeta :=
  db.listFilesScoped.filter fun m => !isSyncEphemeralMarker m.path

/-- The entries of the snapshot that take part.
Source: `services/sync.rs`, `exchange_state` -/
def clientFiles (files : List FileMetadata) : List FileMeta :=
  (files.map protoToFileMeta).filter fun m => !isSyncEphemeralMarker m.path

/-- The stored baseline entries that take part.
Source: `services/sync.rs`, `exchange_state` -/
def baselineFiles (db : MetaDb) (nodeId : NodeId) : List FileMeta :=
  (db.loadNodeBaselineScoped nodeId).filter fun m => !isSyncEphemeralMarker m.path

/-- Source: `services/sync.rs`, `suggested_resolution_for` -/
def suggestedResolutionFor : ConflictKind → String
  | .concurrent => "merge"
  | .modifiedDeleted => "keep-local"
  | .renameRename => "fork-local"
  | .dirDeleteChildModify => "keep-local"

/-- `format!("{:?}", kind)`. -/
def conflictKindName : ConflictKind → String
  | .concurrent => "Concurrent"
  | .modifiedDeleted => "ModifiedDeleted"
  | .renameRename => "RenameRename"
  | .dirDeleteChildModify => "DirDeleteChildModify"

/-- What one action adds to the answer and to the conflicts table. -/
structure Plan where
  toUpload : List FileMetadata := []
  toDownload : List FileMetadata := []
  toDelete : List FileMetadata := []
  conflicts : List ConflictMessage := []
  records : List ConflictRecord := []

/-- The persisted record of a conflict.
Source: `services/sync.rs`, `exchange_state` -/
def conflictRecord (vaultId : String) (call : ExchangeCall) (a : SyncAction) : ConflictRecord where
  vaultId := vaultId
  path := a.path
  conflictType := (a.conflict.map fun c => conflictKindName c.kind).getD "Concurrent"
  localHash := a.conflict.bind ConflictReport.localHash
  remoteHash := a.conflict.bind ConflictReport.remoteHash
  baseHash := a.conflict.bind ConflictReport.baseHash
  resolution := none
  forkPath := some (forkFilename a.path call.nodeId call.now)
  resolved := false
  createdAt := 0
  resolvedAt := none

/-- The entry of a list at a path: `iter().find(|m| m.path == path)`. -/
def findPath (files : List FileMeta) (path : Path) : Option FileMeta :=
  files.find? fun m => decide (m.path = path)

/-- One turn of the loop over the actions.
Source: `services/sync.rs`, `exchange_state` -/
def planAction (vaultId : String) (call : ExchangeCall) (server client : List FileMeta)
    (a : SyncAction) : Plan :=
  if isSyncEphemeralMarker a.path then {}
  else match a.action with
    | .upload =>
      { toDownload := ((a.serverVersion.or (findPath server a.path)).map fileMetaToProto).toList }
    | .download =>
      { toUpload := ((a.serverVersion.or (findPath client a.path)).map fileMetaToProto).toList }
    | .deleteLocal | .deleteRemote => { toDelete := [{ path := a.path }] }
    | .conflictFork | .conflictMerge =>
      -- a receive-only follower never forks: the server's copy wins
      if call.role = some .receiveOnly then
        { toDownload := ((findPath server a.path).map fileMetaToProto).toList }
      else
        { conflicts :=
            [{ path := a.path
               localFile := (findPath client a.path).map fileMetaToProto
               remoteFile := (findPath server a.path).map fileMetaToProto
               suggestedResolution :=
                (a.conflict.map fun c => suggestedResolutionFor c.kind).getD "fork-local" }]
          records := [conflictRecord vaultId call a] }
    | .skip | .renameRemote | .renameLocal => {}

/-- The tombstone of an entry. -/
def tombstone (now : ℤ) (m : FileMeta) : FileMeta :=
  { m with deleted := true, deletedAt := some now }

/-- The tombstone a delete-local action writes over a live row.
Source: `services/sync.rs`, `exchange_state` -/
def tombstoneFor (server : List FileMeta) (now : ℤ) (a : SyncAction) : Option FileMeta :=
  if a.action = .deleteLocal then
    ((findPath server a.path).filter fun m => !m.deleted).map (tombstone now)
  else none

/-- The baseline entry one action leaves behind.
Source: `services/sync.rs`, `build_post_sync_baseline` -/
def postSyncEntry (server : List FileMeta) (now : ℤ) (a : SyncAction) : Option FileMeta :=
  match a.action with
  | .upload | .skip => findPath server a.path
  | .download => a.serverVersion
  | .deleteLocal | .deleteRemote => (findPath server a.path).map (tombstone now)
  | .conflictFork | .conflictMerge | .renameRemote | .renameLocal => none

/-- The baseline the caller should hold after applying the actions.
Source: `services/sync.rs`, `build_post_sync_baseline` -/
def buildPostSyncBaseline (server : List FileMeta) (now : ℤ) (actions : List SyncAction) :
    List FileMeta :=
  actions.filterMap (postSyncEntry server now)

/-- Source: `services/sync.rs`, `filter_proto_paths` -/
def filterProtoPaths (items : List FileMetadata) (includes : List String) : List FileMetadata :=
  if includes.isEmpty then items
  else items.filter fun m => pathMatchesIncludes (pathString m.path) includes

/-- Reconcile the caller's snapshot with the server's rows over the caller's baseline.
Source: `services/sync.rs`, `exchange_state` -/
def exchangeState (vaultId : String) (db : MetaDb) (call : ExchangeCall) :
    Except String (SyncStateResponse × MetaDb) :=
  let server := serverFiles db
  let client := clientFiles call.files
  match reconcile server client (baselineFiles db call.nodeId) with
  | .error e => .error ("reconcile: " ++ e.reason)
  | .ok actions =>
    let plans := actions.map (planAction vaultId call server client)
    let toUpload := if call.role = some .receiveOnly then [] else plans.flatMap Plan.toUpload
    let db := (plans.flatMap Plan.records).foldl MetaDb.createConflictScoped db
    let db := (actions.filterMap (tombstoneFor server call.now)).foldl MetaDb.upsertFileScoped db
    let db := db.upsertNodeBaselinesScoped call.nodeId
      (buildPostSyncBaseline server call.now actions)
    .ok
      ({ toUpload := filterProtoPaths toUpload call.includes
         toDownload := filterProtoPaths (plans.flatMap Plan.toDownload) call.includes
         toDelete := filterProtoPaths (plans.flatMap Plan.toDelete) call.includes
         conflicts := plans.flatMap Plan.conflicts
         serverClock := server.foldl (fun c m => c.merge m.vectorClock) .new }, db)

/-! ## The three entries of a path -/

/-- What takes part of a keyed store at a path: nothing for an ephemeral marker. -/
def visible (f : Path → Option FileMeta) (path : Path) : Option FileMeta :=
  if !isSyncEphemeralMarker path then f path else none

/-- The server's entry of a path. -/
def serverAt (db : MetaDb) : Path → Option FileMeta := visible db.getFileScoped

/-- The snapshot's entry of a path; a later entry of a path replaces an earlier one. -/
def clientAt (files : List FileMetadata) (path : Path) : Option FileMeta :=
  (indexByPath (clientFiles files)).lookup path

/-- The baseline's entry of a path. -/
def baseAt (db : MetaDb) (nodeId : NodeId) : Path → Option FileMeta :=
  visible (db.baselineAt nodeId)

/-- The verdict of an exchange on a path. -/
def exchangeVerdict (db : MetaDb) (call : ExchangeCall) (path : Path) :
    ActionType × Option ConflictKind :=
  verdict (serverAt db path) (clientAt call.files path) (baseAt db call.nodeId path)

theorem lists_serverFiles (db : MetaDb) :
    Table.Lists FileMeta.path (serverAt db) (serverFiles db) :=
  db.lists_listFilesScoped.filter fun path => !isSyncEphemeralMarker path

theorem lists_baselineFiles (db : MetaDb) (nodeId : NodeId) :
    Table.Lists FileMeta.path (baseAt db nodeId) (baselineFiles db nodeId) :=
  (db.lists_loadNodeBaselineScoped nodeId).filter fun path => !isSyncEphemeralMarker path

/-- Searching the rows gives the server's entry. -/
theorem findPath_serverFiles (db : MetaDb) (path : Path) :
    findPath (serverFiles db) path = serverAt db path :=
  (lists_serverFiles db).find?_eq path

theorem serverAt_path {db : MetaDb} {path : Path} {m : FileMeta} (h : serverAt db path = some m) :
    m.path = path :=
  (lists_serverFiles db).key_eq path m h

/-- The snapshot's entry of a path comes from the snapshot, and is no ephemeral marker. -/
theorem of_clientAt {files : List FileMetadata} {path : Path} {m : FileMeta}
    (h : clientAt files path = some m) :
    m.path = path ∧ isSyncEphemeralMarker path = false ∧ ∃ f ∈ files, protoToFileMeta f = m := by
  obtain ⟨hmem, hp⟩ := Table.of_lookup_collect h
  obtain ⟨hmap, hne⟩ := List.mem_filter.mp hmem
  refine ⟨hp, ?_, List.mem_map.mp hmap⟩
  rw [← hp]
  simpa using hne

/-- Nothing at an ephemeral path takes part. -/
theorem entries_of_ephemeral {path : Path} (h : isSyncEphemeralMarker path = true) (db : MetaDb)
    (call : ExchangeCall) :
    serverAt db path = none ∧ clientAt call.files path = none ∧
      baseAt db call.nodeId path = none := by
  refine ⟨by simp [serverAt, visible, h], ?_, by simp [baseAt, visible, h]⟩
  rcases hc : clientAt call.files path with _ | m
  · rfl
  · rw [(of_clientAt hc).2.1] at h
    cases h

/-- The actions of an exchange: one for each path that some side holds, none of them a rename. -/
def exchangeActions (db : MetaDb) (call : ExchangeCall) : List SyncAction :=
  plainActions (indexByPath (serverFiles db)) (indexByPath (clientFiles call.files))
    (indexByPath (baselineFiles db call.nodeId))

/-- The entries the engine sees at a path. -/
theorem lookup_indexByPath (db : MetaDb) (call : ExchangeCall) (path : Path) :
    (indexByPath (serverFiles db)).lookup path = serverAt db path ∧
      (indexByPath (clientFiles call.files)).lookup path = clientAt call.files path ∧
        (indexByPath (baselineFiles db call.nodeId)).lookup path = baseAt db call.nodeId path :=
  ⟨(lists_serverFiles db).lookup_collect path, rfl,
    (lists_baselineFiles db call.nodeId).lookup_collect path⟩

/-- Stored baselines have no inode, so no rename is detected. -/
theorem reconcile_exchange (db : MetaDb) (call : ExchangeCall) :
    reconcile (serverFiles db) (clientFiles call.files) (baselineFiles db call.nodeId) =
      .ok (exchangeActions db call) := by
  rw [reconcile_eq, detectRemoteRenames_of_inode_none]
  · rfl
  · intro path m hm
    rw [(lookup_indexByPath db call path).2.2] at hm
    unfold baseAt visible at hm
    split_ifs at hm
    obtain ⟨row, -, rfl⟩ := Option.map_eq_some_iff.mp hm
    rfl

/-- An action of an exchange is the table's action at its path. -/
theorem mem_exchangeActions {db : MetaDb} {call : ExchangeCall} {a : SyncAction} :
    a ∈ exchangeActions db call ↔
      (serverAt db a.path ≠ none ∨ clientAt call.files a.path ≠ none ∨
        baseAt db call.nodeId a.path ≠ none) ∧
      a = actionOf a.path (serverAt db a.path) (clientAt call.files a.path)
        (baseAt db call.nodeId a.path) := by
  obtain ⟨hs, hc, hb⟩ := lookup_indexByPath db call a.path
  unfold exchangeActions
  rw [mem_plainActions, mem_unionPaths, hs, hc, hb]

theorem exchangeActions_nodup (db : MetaDb) (call : ExchangeCall) :
    ((exchangeActions db call).map SyncAction.path).Nodup := by
  unfold exchangeActions
  rw [plainActions_map_path]
  exact unionPaths_nodup _ _ _

/-! ## What an exchange writes -/

/-- The store after an exchange. -/
def exchangeDb (vaultId : String) (db : MetaDb) (call : ExchangeCall) : MetaDb :=
  let server := serverFiles db
  let actions := exchangeActions db call
  let plans := actions.map (planAction vaultId call server (clientFiles call.files))
  let db := (plans.flatMap Plan.records).foldl MetaDb.createConflictScoped db
  let db := (actions.filterMap (tombstoneFor server call.now)).foldl MetaDb.upsertFileScoped db
  db.upsertNodeBaselinesScoped call.nodeId (buildPostSyncBaseline server call.now actions)

/-- The answer of an exchange. -/
def exchangeResponse (vaultId : String) (db : MetaDb) (call : ExchangeCall) : SyncStateResponse :=
  let server := serverFiles db
  let plans := (exchangeActions db call).map
    (planAction vaultId call server (clientFiles call.files))
  { toUpload := filterProtoPaths
      (if call.role = some .receiveOnly then [] else plans.flatMap Plan.toUpload) call.includes
    toDownload := filterProtoPaths (plans.flatMap Plan.toDownload) call.includes
    toDelete := filterProtoPaths (plans.flatMap Plan.toDelete) call.includes
    conflicts := plans.flatMap Plan.conflicts
    serverClock := server.foldl (fun c m => c.merge m.vectorClock) .new }

/-- **An exchange always answers.** -/
theorem exchangeState_eq (vaultId : String) (db : MetaDb) (call : ExchangeCall) :
    exchangeState vaultId db call =
      .ok (exchangeResponse vaultId db call, exchangeDb vaultId db call) := by
  unfold exchangeState
  simp only [reconcile_exchange]
  rfl

theorem foldl_createConflictScoped (l : List ConflictRecord) (db : MetaDb) :
    l.foldl MetaDb.createConflictScoped db = { db with conflicts := db.conflicts ++ l } := by
  induction l generalizing db with
  | nil => simp
  | cons c l ih => simp [ih, MetaDb.createConflictScoped]

theorem foldl_upsertFileScoped (l : List FileMeta) (db : MetaDb) :
    l.foldl MetaDb.upsertFileScoped db =
      { db with files := Table.updateAll FileMeta.path MetaDb.upsertRow db.files l } := by
  induction l generalizing db with
  | nil => rfl
  | cons m l ih => simp [ih, MetaDb.upsertFileScoped]

/-- An exchange leaves the history rows alone. -/
theorem exchangeDb_fileVersions (vaultId : String) (db : MetaDb) (call : ExchangeCall) :
    (exchangeDb vaultId db call).fileVersions = db.fileVersions := by
  unfold exchangeDb
  simp only [foldl_createConflictScoped, foldl_upsertFileScoped, MetaDb.upsertNodeBaselinesScoped]

/-- The files table after an exchange. -/
theorem exchangeDb_files (vaultId : String) (db : MetaDb) (call : ExchangeCall) :
    (exchangeDb vaultId db call).files =
      Table.updateAll FileMeta.path MetaDb.upsertRow db.files
        ((exchangeActions db call).filterMap (tombstoneFor (serverFiles db) call.now)) := by
  unfold exchangeDb
  simp only [foldl_createConflictScoped, foldl_upsertFileScoped, MetaDb.upsertNodeBaselinesScoped]

/-- The baselines after an exchange. -/
theorem exchangeDb_nodeBaselines (vaultId : String) (db : MetaDb) (call : ExchangeCall) :
    (exchangeDb vaultId db call).nodeBaselines =
      Table.insertAll (fun m => (call.nodeId, m.path)) baselineRowOfMeta db.nodeBaselines
        ((exchangeActions db call).filterMap (postSyncEntry (serverFiles db) call.now)) := by
  unfold exchangeDb buildPostSyncBaseline
  simp only [foldl_createConflictScoped, foldl_upsertFileScoped, MetaDb.upsertNodeBaselinesScoped]

/-- The action of a path. -/
def actionAt (db : MetaDb) (call : ExchangeCall) (path : Path) : SyncAction :=
  actionOf path (serverAt db path) (clientAt call.files path) (baseAt db call.nodeId path)

@[simp] theorem actionAt_path (db : MetaDb) (call : ExchangeCall) (path : Path) :
    (actionAt db call path).path = path :=
  actionOf_path _ _ _ _

@[simp] theorem actionAt_action (db : MetaDb) (call : ExchangeCall) (path : Path) :
    (actionAt db call path).action = (exchangeVerdict db call path).1 :=
  actionOf_action _ _ _ _

@[simp] theorem actionAt_serverVersion (db : MetaDb) (call : ExchangeCall) (path : Path) :
    (actionAt db call path).serverVersion = clientAt call.files path :=
  actionOf_serverVersion _ _ _ _

theorem eq_actionAt_of_mem {db : MetaDb} {call : ExchangeCall} {a : SyncAction}
    (h : a ∈ exchangeActions db call) : a = actionAt db call a.path :=
  (mem_exchangeActions.mp h).2

/-- A path has its action among the actions, or no side holds it. -/
theorem actionAt_mem_or (db : MetaDb) (call : ExchangeCall) (path : Path) :
    actionAt db call path ∈ exchangeActions db call ∨
      (serverAt db path = none ∧ clientAt call.files path = none ∧
        baseAt db call.nodeId path = none) := by
  by_cases h : serverAt db path = none ∧ clientAt call.files path = none ∧
      baseAt db call.nodeId path = none
  · exact Or.inr h
  · refine Or.inl (mem_exchangeActions.mpr ?_)
    rw [actionAt_path]
    refine ⟨?_, rfl⟩
    by_contra hn
    push Not at hn
    exact h hn

/-- The tombstone of an action stands at the action's path. -/
theorem tombstoneFor_path {db : MetaDb} {now : ℤ} {a : SyncAction} {m : FileMeta}
    (h : tombstoneFor (serverFiles db) now a = some m) : m.path = a.path := by
  unfold tombstoneFor at h
  split_ifs at h
  obtain ⟨s, hs, rfl⟩ := Option.map_eq_some_iff.mp h
  rw [findPath_serverFiles] at hs
  exact serverAt_path (m := s) (Option.filter_eq_some_iff.mp hs).1

/-- The baseline entry of an action stands at the action's path. -/
theorem postSyncEntry_path {db : MetaDb} {call : ExchangeCall} {a : SyncAction} {m : FileMeta}
    (ha : a ∈ exchangeActions db call)
    (h : postSyncEntry (serverFiles db) call.now a = some m) : m.path = a.path := by
  have hv : a.serverVersion = clientAt call.files a.path := by
    rw [eq_actionAt_of_mem ha, actionAt_serverVersion, actionAt_path]
  unfold postSyncEntry at h
  rw [findPath_serverFiles, hv] at h
  have hdel : (serverAt db a.path).map (tombstone call.now) = some m → m.path = a.path := by
    intro hm
    obtain ⟨s, hs, rfl⟩ := Option.map_eq_some_iff.mp hm
    exact serverAt_path (m := s) hs
  generalize a.action = action at h
  cases action with
  | skip => exact serverAt_path h
  | upload => exact serverAt_path h
  | download => exact (of_clientAt h).1
  | deleteLocal => exact hdel h
  | deleteRemote => exact hdel h
  | conflictFork => cases h
  | conflictMerge => cases h
  | renameRemote => cases h
  | renameLocal => cases h

/-- An exchange tombstones the row of a path. -/
def Tombstones (db : MetaDb) (call : ExchangeCall) (path : Path) : Prop :=
  side (serverAt db path) = .live ∧ (exchangeVerdict db call path).1 = .deleteLocal

instance (db : MetaDb) (call : ExchangeCall) (path : Path) : Decidable (Tombstones db call path) :=
  inferInstanceAs (Decidable (_ ∧ _))

/-- The tombstone of a path, when the exchange writes one. -/
theorem tombstoneFor_actionAt (db : MetaDb) (call : ExchangeCall) (path : Path) :
    tombstoneFor (serverFiles db) call.now (actionAt db call path) =
      if Tombstones db call path then (serverAt db path).map (tombstone call.now) else none := by
  unfold tombstoneFor
  rw [findPath_serverFiles, actionAt_action, actionAt_path]
  by_cases hv : (exchangeVerdict db call path).1 = .deleteLocal
  · rcases hs : serverAt db path with _ | m
    · rw [if_pos hv]
      split_ifs <;> rfl
    · rcases hd : m.deleted with _ | _
      · have ht : Tombstones db call path := ⟨by rw [hs]; exact side_some_of_live hd, hv⟩
        rw [if_pos hv, if_pos ht]
        simp [Option.filter, hd]
      · have ht : ¬ Tombstones db call path := fun ht => by
          have := ht.1
          rw [hs, side_some_of_tomb hd] at this
          cases this
        rw [if_pos hv, if_neg ht]
        simp [Option.filter, hd]
  · rw [if_neg hv, if_neg fun ht => hv ht.2]

/-- **The row of a path after an exchange**: tombstoned, or untouched. -/
theorem lookup_exchangeDb_files (vaultId : String) (db : MetaDb) (call : ExchangeCall)
    (path : Path) :
    (exchangeDb vaultId db call).files.lookup path =
      if Tombstones db call path then
        (db.files.lookup path).map fun row =>
          { row with deleted := true, deletedAt := some call.now }
      else db.files.lookup path := by
  rw [exchangeDb_files]
  rcases actionAt_mem_or db call path with ha | ⟨hs, -, -⟩
  · rw [Table.lookup_updateAll_filterMap (exchangeActions_nodup db call)
      (fun b _ c hc => tombstoneFor_path hc) db.files ha (actionAt_path db call path),
      tombstoneFor_actionAt]
    split_ifs with ht
    · obtain ⟨m, hm, -⟩ := side_eq_live_iff.mp ht.1
      obtain ⟨row, hrow, rfl⟩ : ∃ row, db.files.lookup path = some row ∧ rowToMeta path row = m := by
        unfold serverAt visible at hm
        split_ifs at hm
        exact Option.map_eq_some_iff.mp hm
      rw [hm, hrow]
      rfl
    · rfl
  · have ht : ¬ Tombstones db call path := fun ht => by
      have := ht.1
      rw [hs] at this
      cases this
    rw [if_neg ht]
    refine Table.lookup_updateAll_of_forall_ne fun m hm hmp => ht ?_
    obtain ⟨a, ha, ham⟩ := List.mem_filterMap.mp hm
    have hap : a.path = path := (tombstoneFor_path ham).symm.trans hmp
    rw [eq_actionAt_of_mem ha, hap, tombstoneFor_actionAt, if_neg ht] at ham
    cases ham

/-- The baseline entry an exchange leaves at a path, if it writes one. -/
def nextBaseline (db : MetaDb) (call : ExchangeCall) (path : Path) : Option FileMeta :=
  match (exchangeVerdict db call path).1 with
  | .upload | .skip => serverAt db path
  | .download => clientAt call.files path
  | .deleteLocal | .deleteRemote => (serverAt db path).map (tombstone call.now)
  | .conflictFork | .conflictMerge | .renameRemote | .renameLocal => none

theorem postSyncEntry_actionAt (db : MetaDb) (call : ExchangeCall) (path : Path) :
    postSyncEntry (serverFiles db) call.now (actionAt db call path) = nextBaseline db call path := by
  unfold postSyncEntry nextBaseline
  rw [findPath_serverFiles, actionAt_action, actionAt_path, actionAt_serverVersion]

/-- An entry as the baselines table gives it back. -/
def asBaseline (path : Path) (m : FileMeta) : FileMeta := baselineRowToMeta path (baselineRowOfMeta m)

/-- **The caller's baseline of a path after an exchange.** -/
theorem baselineAt_exchangeDb (vaultId : String) (db : MetaDb) (call : ExchangeCall) (path : Path) :
    (exchangeDb vaultId db call).baselineAt call.nodeId path =
      ((nextBaseline db call path).map (asBaseline path)).or (db.baselineAt call.nodeId path) := by
  unfold MetaDb.baselineAt
  rw [exchangeDb_nodeBaselines, Table.insertAll_eq_updateAll]
  rcases actionAt_mem_or db call path with ha | hnone
  · have hnodup : ((exchangeActions db call).map fun a => (call.nodeId, a.path)).Nodup := by
      have := (exchangeActions_nodup db call).map (Prod.mk_right_injective call.nodeId)
      rwa [List.map_map] at this
    rw [Table.lookup_updateAll_filterMap hnodup (fun b hb c hc => by rw [postSyncEntry_path hb hc])
      db.nodeBaselines ha (by rw [actionAt_path]), postSyncEntry_actionAt]
    rcases nextBaseline db call path with _ | m <;> rfl
  · have hnext : nextBaseline db call path = none := by
      unfold nextBaseline exchangeVerdict
      rw [hnone.1, hnone.2.1, hnone.2.2]
      rfl
    rw [hnext, Table.lookup_updateAll_of_forall_ne]
    · rfl
    · intro m hm hmp
      obtain ⟨a, ha, ham⟩ := List.mem_filterMap.mp hm
      have hap : a.path = path := (postSyncEntry_path ha ham).symm.trans (Prod.mk.inj hmp).2
      rw [eq_actionAt_of_mem ha, hap, postSyncEntry_actionAt, hnext] at ham
      cases ham

/-- An exchange leaves the baselines of other nodes alone. -/
theorem baselineAt_exchangeDb_of_ne (vaultId : String) (db : MetaDb) (call : ExchangeCall)
    {nodeId : NodeId} (hne : nodeId ≠ call.nodeId) (path : Path) :
    (exchangeDb vaultId db call).baselineAt nodeId path = db.baselineAt nodeId path := by
  unfold MetaDb.baselineAt
  rw [exchangeDb_nodeBaselines, Table.insertAll_eq_updateAll,
    Table.lookup_updateAll_of_forall_ne]
  intro m _ hm
  exact hne (Prod.mk.inj hm).1.symm

/-- The baseline entry that takes part after an exchange. -/
theorem baseAt_exchangeDb (vaultId : String) (db : MetaDb) (call : ExchangeCall) (path : Path) :
    baseAt (exchangeDb vaultId db call) call.nodeId path =
      ((nextBaseline db call path).map (asBaseline path)).or (baseAt db call.nodeId path) := by
  unfold baseAt visible
  rcases he : isSyncEphemeralMarker path with _ | _
  · simp only [Bool.not_false, if_true]
    exact baselineAt_exchangeDb vaultId db call path
  · have hnone := entries_of_ephemeral he db call
    have hnext : nextBaseline db call path = none := by
      unfold nextBaseline exchangeVerdict
      rw [hnone.1, hnone.2.1, hnone.2.2]
      rfl
    rw [hnext]
    rfl

theorem baseAt_exchangeDb_of_ne (vaultId : String) (db : MetaDb) (call : ExchangeCall)
    {nodeId : NodeId} (hne : nodeId ≠ call.nodeId) (path : Path) :
    baseAt (exchangeDb vaultId db call) nodeId path = baseAt db nodeId path := by
  unfold baseAt visible
  rw [baselineAt_exchangeDb_of_ne vaultId db call hne]

@[simp] theorem liveHash_map_asBaseline (path : Path) (o : Option FileMeta) :
    liveHash (o.map (asBaseline path)) = liveHash o := by
  rcases o with _ | m <;> rfl

/-- **When an exchange tombstones a row**: the row is live, the snapshot does not report the path
live, and the stored baseline is live with the row's content. -/
theorem tombstones_iff {db : MetaDb} {call : ExchangeCall} {path : Path} :
    Tombstones db call path ↔
      side (clientAt call.files path) ≠ .live ∧
        ∃ h, liveHash (serverAt db path) = some h ∧ liveHash (baseAt db call.nodeId path) = some h := by
  unfold Tombstones exchangeVerdict
  rw [verdict_deleteLocal_iff]
  constructor
  · rintro ⟨hl, ⟨hs, -⟩ | ⟨-, hc, hb, heq⟩⟩
    · rw [hl] at hs
      cases hs
    · obtain ⟨m, hm, hd⟩ := side_eq_live_iff.mp hl
      refine ⟨hc, m.contentHash, by simp [hm, liveHash, hd], ?_⟩
      rw [← (hashesEq_eq_true_iff_of_live hl hb).mp heq, hm]
      simp [liveHash, hd]
  · rintro ⟨hc, h, hs, hb⟩
    obtain ⟨m, hm, hd, -⟩ := liveHash_eq_some_iff.mp hs
    obtain ⟨b, hbm, hbd, -⟩ := liveHash_eq_some_iff.mp hb
    have hl : side (serverAt db path) = .live := side_eq_live_iff.mpr ⟨m, hm, hd⟩
    have hbl : side (baseAt db call.nodeId path) = .live := side_eq_live_iff.mpr ⟨b, hbm, hbd⟩
    exact ⟨hl, Or.inr ⟨hl, hc, hbl, (hashesEq_eq_true_iff_of_live hl hbl).mpr (hs.trans hb.symm)⟩⟩

/-- **The live content of the caller's baseline after an exchange**, by the verdict. -/
theorem liveHash_baseAt_exchangeDb (vaultId : String) (db : MetaDb) (call : ExchangeCall)
    (path : Path) :
    liveHash (baseAt (exchangeDb vaultId db call) call.nodeId path) =
      match (exchangeVerdict db call path).1 with
      | .download => liveHash (clientAt call.files path)
      | .upload | .skip =>
        if serverAt db path = none then liveHash (baseAt db call.nodeId path)
        else liveHash (serverAt db path)
      | .deleteLocal | .deleteRemote =>
        if serverAt db path = none then liveHash (baseAt db call.nodeId path) else none
      | .conflictFork | .conflictMerge | .renameRemote | .renameLocal =>
        liveHash (baseAt db call.nodeId path) := by
  rw [baseAt_exchangeDb]
  unfold nextBaseline
  have hrow : ∀ (o : Option FileMeta) (f : FileMeta → FileMeta),
      liveHash ((((o.map f).map (asBaseline path))).or (baseAt db call.nodeId path)) =
        if o = none then liveHash (baseAt db call.nodeId path) else liveHash (o.map f) := by
    intro o f
    rcases o with _ | m
    · rfl
    · exact liveHash_map_asBaseline path (some (f m))
  rcases hv : (exchangeVerdict db call path).1 with _ | _ | _ | _ | _ | _ | _ | _ | _
  case download =>
    obtain ⟨c, hc, -⟩ := side_eq_live_iff.mp (of_verdict_download hv)
    rw [hc]
    exact liveHash_map_asBaseline path (some c)
  case skip => simpa using hrow (serverAt db path) id
  case upload => simpa using hrow (serverAt db path) id
  case deleteLocal =>
    refine (hrow (serverAt db path) (tombstone call.now)).trans ?_
    rcases serverAt db path with _ | m <;> rfl
  case deleteRemote =>
    refine (hrow (serverAt db path) (tombstone call.now)).trans ?_
    rcases serverAt db path with _ | m <;> rfl
  all_goals rfl

/-- The baseline an exchange leaves at a path that the snapshot does not report live, when it does
not tombstone the row: the row's content if there is a row, else the old baseline. -/
theorem liveHash_baseAt_exchangeDb_of_not_live {vaultId : String} {db : MetaDb}
    {call : ExchangeCall} {path : Path} (hc : side (clientAt call.files path) ≠ .live)
    (ht : ¬ Tombstones db call path) :
    liveHash (baseAt (exchangeDb vaultId db call) call.nodeId path) =
      if serverAt db path = none then liveHash (baseAt db call.nodeId path)
      else liveHash (serverAt db path) := by
  rw [baseAt_exchangeDb]
  unfold Tombstones at ht
  unfold nextBaseline
  unfold exchangeVerdict at ht ⊢
  generalize serverAt db path = s at ht ⊢
  generalize clientAt call.files path = c at hc ht ⊢
  generalize baseAt db call.nodeId path = b at ht ⊢
  rcases side_cases s with rfl | ⟨s, rfl, hs⟩ | ⟨s, rfl, hs⟩ <;>
    rcases side_cases c with rfl | ⟨c, rfl, hcd⟩ | ⟨c, rfl, hcd⟩ <;>
    rcases side_cases b with rfl | ⟨b, rfl, hb⟩ | ⟨b, rfl, hb⟩ <;>
    simp only [verdict, side, *] at hc ht ⊢ <;>
    simp_all [liveHash, tombstone, asBaseline, baselineRowToMeta, baselineRowOfMeta]
  all_goals split_ifs <;> simp_all [asBaseline, baselineRowToMeta, baselineRowOfMeta]

/-! ## What an exchange answers -/

/-- The part of the answer that stands for one path. -/
def planAt (vaultId : String) (db : MetaDb) (call : ExchangeCall) (path : Path) : Plan :=
  planAction vaultId call (serverFiles db) (clientFiles call.files) (actionAt db call path)

/-- The entry an exchange hands out for download at a path, before the selective-sync filter. -/
def downloadEntry (db : MetaDb) (call : ExchangeCall) (path : Path) : Option FileMeta :=
  match (exchangeVerdict db call path).1 with
  | .upload => (clientAt call.files path).or (serverAt db path)
  | .conflictFork | .conflictMerge =>
    if call.role = some .receiveOnly then serverAt db path else none
  | _ => none

/-- The entry an exchange asks the caller to upload at a path, before the filters. -/
def uploadEntry (db : MetaDb) (call : ExchangeCall) (path : Path) : Option FileMeta :=
  if (exchangeVerdict db call path).1 = .download then clientAt call.files path else none

/-- The exchange tells the caller to delete a path, before the selective-sync filter. -/
def Deletes (db : MetaDb) (call : ExchangeCall) (path : Path) : Prop :=
  (exchangeVerdict db call path).1 = .deleteLocal ∨ (exchangeVerdict db call path).1 = .deleteRemote

instance (db : MetaDb) (call : ExchangeCall) (path : Path) : Decidable (Deletes db call path) :=
  inferInstanceAs (Decidable (_ ∨ _))

/-- The exchange reports a conflict at a path. -/
def ReportsConflict (db : MetaDb) (call : ExchangeCall) (path : Path) : Prop :=
  call.role ≠ some .receiveOnly ∧ (exchangeVerdict db call path).1 = .conflictFork

/-- The verdict on a path that no side holds. -/
theorem exchangeVerdict_of_none {db : MetaDb} {call : ExchangeCall} {path : Path}
    (h : serverAt db path = none ∧ clientAt call.files path = none ∧
      baseAt db call.nodeId path = none) : exchangeVerdict db call path = (.skip, none) := by
  unfold exchangeVerdict
  rw [h.1, h.2.1, h.2.2]
  rfl

/-- What an answer's list holds was put there for some path. -/
theorem mem_flatMap_planAction {β : Type} (vaultId : String) (db : MetaDb) (call : ExchangeCall)
    (field : Plan → List β) (hfield : field {} = []) (b : β) :
    b ∈ ((exchangeActions db call).map
        (planAction vaultId call (serverFiles db) (clientFiles call.files))).flatMap field ↔
      ∃ path, b ∈ field (planAt vaultId db call path) := by
  rw [List.mem_flatMap]
  constructor
  · rintro ⟨_, hplan, hb⟩
    obtain ⟨a, ha, rfl⟩ := List.mem_map.mp hplan
    refine ⟨a.path, ?_⟩
    unfold planAt
    rwa [← eq_actionAt_of_mem ha]
  · rintro ⟨path, hb⟩
    rcases actionAt_mem_or db call path with ha | hnone
    · exact ⟨_, List.mem_map_of_mem ha, hb⟩
    · -- a path that no side holds contributes nothing
      have hplan : planAt vaultId db call path = {} := by
        unfold planAt planAction
        rw [actionAt_action, exchangeVerdict_of_none hnone]
        split_ifs <;> rfl
      rw [hplan, hfield] at hb
      exact absurd hb List.not_mem_nil

/-- An ephemeral path contributes nothing. -/
theorem exchangeVerdict_of_ephemeral {path : Path} (h : isSyncEphemeralMarker path = true)
    (db : MetaDb) (call : ExchangeCall) : exchangeVerdict db call path = (.skip, none) :=
  exchangeVerdict_of_none (entries_of_ephemeral h db call)

theorem mem_filterProtoPaths {items : List FileMetadata} {includes : List String}
    {m : FileMetadata} :
    m ∈ filterProtoPaths items includes ↔
      m ∈ items ∧ pathMatchesIncludes (pathString m.path) includes = true := by
  unfold filterProtoPaths
  split_ifs with h
  · rw [List.isEmpty_iff.mp h]
    simp
  · rw [List.mem_filter]

/-- The deletions planned for a path. -/
theorem mem_planAt_toDelete {vaultId : String} {db : MetaDb} {call : ExchangeCall} {path : Path}
    {m : FileMetadata} :
    m ∈ (planAt vaultId db call path).toDelete ↔ m = { path := path } ∧ Deletes db call path := by
  unfold planAt planAction Deletes
  rw [actionAt_action, actionAt_path]
  by_cases he : isSyncEphemeralMarker path = true
  · simp [he, exchangeVerdict_of_ephemeral he]
  · rw [if_neg he]
    generalize (exchangeVerdict db call path).1 = action
    cases action <;> (try split_ifs) <;> simp

/-- The downloads planned for a path. -/
theorem mem_planAt_toDownload {vaultId : String} {db : MetaDb} {call : ExchangeCall} {path : Path}
    {m : FileMetadata} :
    m ∈ (planAt vaultId db call path).toDownload ↔
      ∃ f, downloadEntry db call path = some f ∧ m = fileMetaToProto f := by
  unfold planAt planAction downloadEntry
  rw [actionAt_action, actionAt_path, actionAt_serverVersion, findPath_serverFiles]
  by_cases he : isSyncEphemeralMarker path = true
  · simp [he, exchangeVerdict_of_ephemeral he]
  · rw [if_neg he]
    generalize (exchangeVerdict db call path).1 = action
    cases action <;> (try split_ifs) <;> simp [eq_comm]

/-- The uploads planned for a path. -/
theorem mem_planAt_toUpload {vaultId : String} {db : MetaDb} {call : ExchangeCall} {path : Path}
    {m : FileMetadata} :
    m ∈ (planAt vaultId db call path).toUpload ↔
      ∃ f, uploadEntry db call path = some f ∧ m = fileMetaToProto f := by
  unfold planAt planAction uploadEntry
  rw [actionAt_action, actionAt_path, actionAt_serverVersion]
  by_cases he : isSyncEphemeralMarker path = true
  · simp [he, exchangeVerdict_of_ephemeral he]
  by_cases hv : (exchangeVerdict db call path).1 = .download
  · -- a download verdict has a live remote side, so the fallback search is not reached
    obtain ⟨c, hc, -⟩ := side_eq_live_iff.mp (of_verdict_download hv)
    rw [if_neg he, hv, hc]
    simp
  · rw [if_neg he, if_neg hv]
    revert hv
    generalize (exchangeVerdict db call path).1 = action
    cases action <;> (try split_ifs) <;> simp

/-- The conflicts reported for a path. -/
theorem mem_planAt_conflicts {vaultId : String} {db : MetaDb} {call : ExchangeCall} {path : Path}
    {c : ConflictMessage} (hc : c ∈ (planAt vaultId db call path).conflicts) :
    c.path = path ∧ c.localFile = (findPath (clientFiles call.files) path).map fileMetaToProto ∧
      c.remoteFile = (serverAt db path).map fileMetaToProto ∧ ReportsConflict db call path := by
  unfold planAt planAction at hc
  rw [actionAt_action, actionAt_path, findPath_serverFiles] at hc
  by_cases he : isSyncEphemeralMarker path = true
  · simp [he] at hc
  rw [if_neg he] at hc
  by_cases hv : (exchangeVerdict db call path).1 = .conflictFork ∨
      (exchangeVerdict db call path).1 = .conflictMerge
  · have hfork := (of_verdict_conflict hv).1
    change (exchangeVerdict db call path).1 = .conflictFork at hfork
    rw [hfork] at hc
    by_cases hr : call.role = some .receiveOnly
    · simp [hr] at hc
    · simp only [if_neg hr, List.mem_singleton] at hc
      rw [hc]
      exact ⟨rfl, rfl, rfl, hr, hfork⟩
  · revert hc hv
    generalize (exchangeVerdict db call path).1 = action
    cases action <;> simp

/-- A conflict is reported for every path with a conflict verdict. -/
theorem exists_mem_planAt_conflicts (vaultId : String) {db : MetaDb} {call : ExchangeCall}
    {path : Path} (h : ReportsConflict db call path) :
    ∃ c ∈ (planAt vaultId db call path).conflicts, c.path = path := by
  have he : ¬ isSyncEphemeralMarker path = true := by
    intro he
    have := h.2
    rw [exchangeVerdict_of_ephemeral he] at this
    cases this
  unfold planAt planAction
  rw [actionAt_action, actionAt_path, if_neg he, h.2]
  simp only [if_neg h.1]
  exact ⟨_, List.mem_singleton_self _, rfl⟩

/-- A list of the answer names a path. -/
def Listed (l : List FileMetadata) (path : Path) : Prop := ∃ m ∈ l, m.path = path

/-- A path is served to the caller. -/
def Included (call : ExchangeCall) (path : Path) : Prop :=
  pathMatchesIncludes (pathString path) call.includes = true

/-- An entry handed out for download stands at its path. -/
theorem downloadEntry_path {db : MetaDb} {call : ExchangeCall} {path : Path} {f : FileMeta}
    (h : downloadEntry db call path = some f) : f.path = path := by
  unfold downloadEntry at h
  split at h
  · rcases hc : clientAt call.files path with _ | c
    · rw [hc] at h
      exact serverAt_path h
    · rw [hc] at h
      cases h
      exact (of_clientAt hc).1
  · split_ifs at h
    exact serverAt_path h
  · split_ifs at h
    exact serverAt_path h
  · cases h

/-- An entry to upload stands at its path. -/
theorem uploadEntry_path {db : MetaDb} {call : ExchangeCall} {path : Path} {f : FileMeta}
    (h : uploadEntry db call path = some f) : f.path = path := by
  unfold uploadEntry at h
  split_ifs at h
  exact (of_clientAt h).1

/-- **What an exchange tells the caller to delete.** -/
theorem listed_toDelete {vaultId : String} {db : MetaDb} {call : ExchangeCall} {path : Path} :
    Listed (exchangeResponse vaultId db call).toDelete path ↔
      Included call path ∧ Deletes db call path := by
  unfold Listed exchangeResponse Included
  simp only [mem_filterProtoPaths, mem_flatMap_planAction vaultId db call Plan.toDelete rfl,
    mem_planAt_toDelete]
  constructor
  · rintro ⟨m, ⟨⟨p, rfl, hd⟩, hinc⟩, rfl⟩
    exact ⟨hinc, hd⟩
  · rintro ⟨hinc, hd⟩
    exact ⟨_, ⟨⟨path, rfl, hd⟩, hinc⟩, rfl⟩

/-- **What an exchange hands out for download.** -/
theorem mem_toDownload {vaultId : String} {db : MetaDb} {call : ExchangeCall} {m : FileMetadata} :
    m ∈ (exchangeResponse vaultId db call).toDownload ↔
      Included call m.path ∧
        ∃ f, downloadEntry db call m.path = some f ∧ m = fileMetaToProto f := by
  unfold exchangeResponse Included
  simp only [mem_filterProtoPaths, mem_flatMap_planAction vaultId db call Plan.toDownload rfl,
    mem_planAt_toDownload]
  constructor
  · rintro ⟨⟨p, f, hf, rfl⟩, hinc⟩
    refine ⟨hinc, f, ?_, rfl⟩
    rw [fileMetaToProto_path, downloadEntry_path hf]
    exact hf
  · rintro ⟨hinc, f, hf, hm⟩
    exact ⟨⟨_, f, hf, hm⟩, hinc⟩

/-- **What an exchange asks the caller to upload.** -/
theorem mem_toUpload {vaultId : String} {db : MetaDb} {call : ExchangeCall} {m : FileMetadata} :
    m ∈ (exchangeResponse vaultId db call).toUpload ↔
      call.role ≠ some .receiveOnly ∧ Included call m.path ∧
        ∃ f, uploadEntry db call m.path = some f ∧ m = fileMetaToProto f := by
  unfold exchangeResponse Included
  rw [mem_filterProtoPaths]
  by_cases hr : call.role = some .receiveOnly
  · simp [hr]
  simp only [if_neg hr, mem_flatMap_planAction vaultId db call Plan.toUpload rfl,
    mem_planAt_toUpload]
  constructor
  · rintro ⟨⟨p, f, hf, rfl⟩, hinc⟩
    refine ⟨hr, hinc, f, ?_, rfl⟩
    rw [fileMetaToProto_path, uploadEntry_path hf]
    exact hf
  · rintro ⟨-, hinc, f, hf, hm⟩
    exact ⟨⟨_, f, hf, hm⟩, hinc⟩

/-- **Which conflicts an exchange reports.** -/
theorem exists_mem_conflicts {vaultId : String} {db : MetaDb} {call : ExchangeCall} {path : Path} :
    (∃ c ∈ (exchangeResponse vaultId db call).conflicts, c.path = path) ↔
      ReportsConflict db call path := by
  unfold exchangeResponse
  simp only [mem_flatMap_planAction vaultId db call Plan.conflicts rfl]
  constructor
  · rintro ⟨c, ⟨p, hc⟩, rfl⟩
    obtain ⟨hp, -, -, hrep⟩ := mem_planAt_conflicts hc
    rwa [hp]
  · intro h
    obtain ⟨c, hc, hp⟩ := exists_mem_planAt_conflicts vaultId h
    exact ⟨c, ⟨path, hc⟩, hp⟩

end DiskArcana.Server
