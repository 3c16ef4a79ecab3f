import Mathlib.Data.List.Sort
import DiskArcana.Core.Filter

/-!
# The server's metadata store

The tables of `disk-core/src/meta_db/` that sync reads and writes, for one tenant and one vault:

* `files`: one row a path, live or tombstoned;
* `node_baselines`: one row a (node, path), the snapshot the server believes the node holds;
* `file_versions`: superseded revisions;
* `conflicts`: recorded conflicts.

SQL statements become table operations; a row has exactly the columns the statements bind and
select, which is why a file read back from `files` has no writer and a file read back from
`node_baselines` has no inode. `now` is the wall clock of the call.
-/

namespace DiskArcana.Server

open DiskArcana.Core DiskArcana.Lib

/-- A row of `files`.
Source: `migrations/001_init.sql` -/
structure FileRow where
  contentHash : Digest
  size : ℕ
  mtimeNs : ℤ
  inode : Option ℕ
  vectorClock : VectorClock
  deleted : Bool
  deletedAt : Option ℤ
  encryptionNonce : Option Bytes
  versionId : Option ℕ
  parentVersionId : Option ℕ
  deriving DecidableEq

/-- A row of `node_baselines`.
Source: `meta_db/node_baseline.rs` -/
structure BaselineRow where
  contentHash : Digest
  size : ℕ
  mtimeNs : ℤ
  vectorClock : VectorClock
  deleted : Bool
  deletedAt : Option ℤ
  nodeIdWriter : NodeId
  deriving DecidableEq

/-- A row of `file_versions`.
Source: `migrations/014_file_versions.sql` -/
structure FileVersionRow where
  path : Path
  versionId : ℕ
  parentVersionId : ℕ
  contentHash : Digest
  size : ℕ
  mtimeNs : ℤ
  createdAt : ℤ
  createdBy : Option String
  deriving DecidableEq

/-- The tables of one vault. -/
structure MetaDb where
  /-- The tenant the rows are scoped by; `NULL` for a single-tenant server. -/
  tenantId : Option String
  files : PathMap FileRow
  nodeBaselines : Table (NodeId × Path) BaselineRow
  fileVersions : List FileVersionRow
  conflicts : List ConflictRecord

/-- Source: `meta_db/files.rs`, `row_to_meta` -/
def rowToMeta (path : Path) (row : FileRow) : FileMeta where
  path := path
  contentHash := row.contentHash
  size := row.size
  mtimeNs := row.mtimeNs
  inode := row.inode
  vectorClock := row.vectorClock
  deleted := row.deleted
  deletedAt := row.deletedAt
  nodeId := ""
  encryptionNonce := row.encryptionNonce
  versionId := row.versionId
  parentVersionId := row.parentVersionId

/-- Source: `meta_db/node_baseline.rs`, `baseline_row_to_meta` -/
def baselineRowToMeta (path : Path) (row : BaselineRow) : FileMeta where
  path := path
  contentHash := row.contentHash
  size := row.size
  mtimeNs := row.mtimeNs
  inode := none
  vectorClock := row.vectorClock
  deleted := row.deleted
  deletedAt := row.deletedAt
  nodeId := row.nodeIdWriter
  encryptionNonce := none
  versionId := none
  parentVersionId := none

/-- The columns of `node_baselines` that an upsert binds. -/
def baselineRowOfMeta (m : FileMeta) : BaselineRow where
  contentHash := m.contentHash
  size := m.size
  mtimeNs := m.mtimeNs
  vectorClock := m.vectorClock
  deleted := m.deleted
  deletedAt := m.deletedAt
  nodeIdWriter := m.nodeId

/-- The columns of `files` that an upsert binds, with the given version columns. -/
def fileRowOfMeta (m : FileMeta) (versionId parentVersionId : Option ℕ) : FileRow where
  contentHash := m.contentHash
  size := m.size
  mtimeNs := m.mtimeNs
  inode := m.inode
  vectorClock := m.vectorClock
  deleted := m.deleted
  deletedAt := m.deletedAt
  encryptionNonce := m.encryptionNonce
  versionId := versionId
  parentVersionId := parentVersionId

/-- `ORDER BY path ASC`: the order of the stored path strings. -/
def sortByPath (l : List FileMeta) : List FileMeta :=
  l.insertionSort fun a b => (pathString a.path).toList ≤ (pathString b.path).toList

namespace MetaDb

/-- Source: `meta_db/files.rs`, `list_files_scoped` -/
def listFilesScoped (db : MetaDb) : List FileMeta :=
  sortByPath (db.files.entries.map fun e => rowToMeta e.1 e.2)

/-- Source: `meta_db/files.rs`, `get_file_scoped` -/
def getFileScoped (db : MetaDb) (path : Path) : Option FileMeta :=
  (db.files.lookup path).map (rowToMeta path)

/-- The row an unversioned upsert writes: an `UPDATE` does not touch the version columns and an
`INSERT` leaves them `NULL`. -/
def upsertRow (old : Option FileRow) (m : FileMeta) : FileRow :=
  fileRowOfMeta m (old.bind FileRow.versionId) (old.bind FileRow.parentVersionId)

/-- Source: `meta_db/files.rs`, `upsert_file_scoped` -/
def upsertFileScoped (db : MetaDb) (m : FileMeta) : MetaDb :=
  { db with files := db.files.insert m.path (upsertRow (db.files.lookup m.path) m) }

/-- Source: `meta_db/files.rs`, `delete_file_scoped` -/
def deleteFileScoped (db : MetaDb) (path : Path) : MetaDb :=
  { db with files := db.files.erase path }

/-- Source: `meta_db/node_baseline.rs`, `load_node_baseline_scoped` -/
def loadNodeBaselineScoped (db : MetaDb) (nodeId : NodeId) : List FileMeta :=
  sortByPath ((db.nodeBaselines.entries.filter fun e => decide (e.1.1 = nodeId)).map
    fun e => baselineRowToMeta e.1.2 e.2)

/-- Source: `meta_db/node_baseline.rs`, `upsert_node_baselines_scoped` -/
def upsertNodeBaselinesScoped (db : MetaDb) (nodeId : NodeId) (baselines : List FileMeta) :
    MetaDb :=
  { db with
    nodeBaselines :=
      Table.insertAll (fun m => (nodeId, m.path)) baselineRowOfMeta db.nodeBaselines baselines }

/-- Source: `meta_db/conflicts.rs`, `create_conflict_scoped` -/
def createConflictScoped (db : MetaDb) (c : ConflictRecord) : MetaDb :=
  { db with conflicts := db.conflicts ++ [c] }

/-! ### Version history -/

/-- How many superseded revisions a tier keeps, and for how long.
Source: `billing.rs`, `VersionRetention` -/
structure VersionRetention where
  maxVersions : ℕ
  maxAgeSecs : ℤ

/-- Context of a versioned upsert.
Source: `meta_db/versions.rs`, `FileVersionUpsert` -/
structure FileVersionUpsert where
  createdBy : String
  retention : VersionRetention

/-- Keep the newest `max_versions` revisions of a path that are young enough.
Source: `meta_db/versions.rs`, `prune_file_versions` -/
def pruneFileVersions (versions : List FileVersionRow) (path : Path) (retention : VersionRetention)
    (now : ℤ) : List FileVersionRow :=
  let newest := ((versions.filter fun v => v.path = path).map FileVersionRow.versionId).insertionSort
    (· ≥ ·) |>.take retention.maxVersions
  versions.filter fun v =>
    !(decide (v.path = path) &&
      (decide (v.createdAt < now - retention.maxAgeSecs) || !newest.contains v.versionId))

/-- The version columns `(version_id, parent_version_id)` of the new row, and the history row of the
superseded content when live content changes.
Source: `meta_db/versions.rs`, `upsert_file_scoped_versioned` -/
def nextVersion (prior : Option FileRow) (m : FileMeta) (createdBy : String) (now : ℤ) :
    ℕ × ℕ × Option FileVersionRow :=
  match prior with
  | none => (1, 0, none)
  | some prior =>
    let priorVid := prior.versionId.getD 1
    if prior.contentHash ≠ m.contentHash ∧ prior.deleted = false then
      (priorVid + 1, priorVid, some
        { path := m.path
          versionId := priorVid
          parentVersionId := prior.parentVersionId.getD 0
          contentHash := prior.contentHash
          size := prior.size
          mtimeNs := prior.mtimeNs
          createdAt := now
          createdBy := some createdBy })
    else (priorVid, prior.parentVersionId.getD 0, none)

/-- Inserting a history row fails on `UNIQUE (tenant_id, vault_id, path, version_id)`, which SQL
does not enforce while `tenant_id` is `NULL`.
Source: `meta_db/versions.rs`, `insert_file_version` -/
def insertFileVersion (db : MetaDb) (v : FileVersionRow) : Option MetaDb :=
  if db.tenantId.isSome ∧
      db.fileVersions.any fun w => decide (w.path = v.path) && decide (w.versionId = v.versionId) then
    none
  else some { db with fileVersions := db.fileVersions ++ [v] }

/-- Record the history row, if there is one. -/
def recordHistory (db : MetaDb) : Option FileVersionRow → Option MetaDb
  | some v => insertFileVersion db v
  | none => some db

/-- Insert or update a file row, recording a history row when live content changes; `none` when a
statement fails.
Source: `meta_db/versions.rs`, `upsert_file_scoped_versioned` -/
def upsertFileScopedVersioned (db : MetaDb) (m : FileMeta) (ctx : FileVersionUpsert) (now : ℤ) :
    Option MetaDb :=
  let next := nextVersion (db.files.lookup m.path) m ctx.createdBy now
  (recordHistory db next.2.2).map fun db => { db with
    files := db.files.insert m.path (fileRowOfMeta m (some next.1) (some next.2.1))
    fileVersions := pruneFileVersions db.fileVersions m.path ctx.retention now }

/-- Source: `meta_db/versions.rs`, `get_file_version` -/
def getFileVersion (db : MetaDb) (path : Path) (versionId : ℕ) : Option FileVersionRow :=
  db.fileVersions.find? fun v => decide (v.path = path) && decide (v.versionId = versionId)

/-! ### Trash -/

/-- `DELETE FROM files WHERE`. -/
def deleteFilesWhere (db : MetaDb) (p : Path → FileRow → Bool) : MetaDb :=
  { db with files := Table.eraseWhere p db.files }

/-- Remove trashed files older than the retention window.
Source: `meta_db/trash.rs`, `prune_expired_trash` -/
def pruneExpiredTrash (db : MetaDb) (maxAgeSecs now : ℤ) : MetaDb :=
  deleteFilesWhere db fun _ row =>
    row.deleted && row.deletedAt.any fun t => decide (t < now - maxAgeSecs)

/-- Remove one trashed file.
Source: `meta_db/trash.rs`, `delete_trash_item` -/
def deleteTrashItem (db : MetaDb) (path : Path) : MetaDb :=
  deleteFilesWhere db fun p row => decide (p = path) && row.deleted

/-- Remove all trashed files.
Source: `meta_db/trash.rs`, `empty_trash` -/
def emptyTrash (db : MetaDb) : MetaDb := deleteFilesWhere db fun _ row => row.deleted

/-! ### What the operations do to the tables -/

/-- The files of a vault list its rows. -/
theorem lists_listFilesScoped (db : MetaDb) :
    Table.Lists FileMeta.path db.getFileScoped db.listFilesScoped :=
  (Table.Lists.entries db.files rowToMeta fun _ _ => rfl).perm
    (List.perm_insertionSort _ _)

/-- The baseline of a node, at one path. -/
def baselineAt (db : MetaDb) (nodeId : NodeId) (path : Path) : Option FileMeta :=
  (db.nodeBaselines.lookup (nodeId, path)).map (baselineRowToMeta path)

/-- The loaded baseline of a node lists its rows. -/
theorem lists_loadNodeBaselineScoped (db : MetaDb) (nodeId : NodeId) :
    Table.Lists FileMeta.path (db.baselineAt nodeId) (db.loadNodeBaselineScoped nodeId) :=
  (Table.Lists.entriesAt db.nodeBaselines nodeId baselineRowToMeta fun _ _ => rfl).perm
    (List.perm_insertionSort _ _)

/-- An unversioned upsert writes the row of its own path. -/
theorem lookup_upsertFileScoped (db : MetaDb) (m : FileMeta) (path : Path) :
    (db.upsertFileScoped m).files.lookup path =
      if path = m.path then some (upsertRow (db.files.lookup m.path) m)
      else db.files.lookup path :=
  Table.lookup_insert_eq_ite _ _ _ _

/-- A versioned upsert that succeeds writes the given entry into the row of its path and leaves
every other row, and every baseline, alone. -/
theorem of_upsertFileScopedVersioned {db db' : MetaDb} {m : FileMeta} {ctx : FileVersionUpsert}
    {now : ℤ} (h : db.upsertFileScopedVersioned m ctx now = some db') :
    (∃ versionId parentVersionId, db'.files =
      db.files.insert m.path (fileRowOfMeta m (some versionId) (some parentVersionId))) ∧
      db'.nodeBaselines = db.nodeBaselines := by
  obtain ⟨db₁, h₁, rfl⟩ := Option.map_eq_some_iff.mp h
  have hkeep : db₁.files = db.files ∧ db₁.nodeBaselines = db.nodeBaselines := by
    unfold recordHistory insertFileVersion at h₁
    split at h₁
    · split_ifs at h₁
      cases h₁
      exact ⟨rfl, rfl⟩
    · cases h₁
      exact ⟨rfl, rfl⟩
  exact ⟨⟨_, _, by rw [← hkeep.1]⟩, hkeep.2⟩

/-- The history rows after a versioned upsert are old ones, or hold what the row of its path held. -/
theorem of_mem_upsert_fileVersions {db db' : MetaDb} {m : FileMeta} {ctx : FileVersionUpsert}
    {now : ℤ} (h : db.upsertFileScopedVersioned m ctx now = some db') {v : FileVersionRow}
    (hv : v ∈ db'.fileVersions) :
    v ∈ db.fileVersions ∨ ∃ row, db.files.lookup m.path = some row ∧
      v.contentHash = row.contentHash ∧ v.size = row.size := by
  obtain ⟨db₁, h₁, rfl⟩ := Option.map_eq_some_iff.mp h
  have hmem : v ∈ db₁.fileVersions := List.mem_of_mem_filter hv
  rcases hnext : (nextVersion (db.files.lookup m.path) m ctx.createdBy now).2.2 with _ | w
  · rw [hnext] at h₁
    cases h₁
    exact Or.inl hmem
  · rw [hnext] at h₁
    unfold recordHistory insertFileVersion at h₁
    dsimp only at h₁
    split_ifs at h₁
    cases h₁
    rcases List.mem_append.mp hmem with hold | hnew
    · exact Or.inl hold
    · right
      rw [List.mem_singleton.mp hnew]
      unfold nextVersion at hnext
      rcases hrow : db.files.lookup m.path with _ | row
      · rw [hrow] at hnext
        cases hnext
      · rw [hrow] at hnext
        dsimp only at hnext
        split_ifs at hnext
        cases hnext
        exact ⟨row, rfl, rfl, rfl⟩

end MetaDb

end DiskArcana.Server
