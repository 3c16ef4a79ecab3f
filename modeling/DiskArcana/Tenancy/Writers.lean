import DiskArcana.Accounts.Routes
import DiskArcana.Lib.SqlRows
import DiskArcana.Lib.Trace
import DiskArcana.Server.MetaDb

/-!
# The writers of the tenant-scoped tables

Five functions of `disk-core/src/meta_db/` write rows that are keyed by a tenant, which may be NULL,
and more: a file, a version of a file, a registered vault, a member of a vault, the revision of a file
that agents write. Each goes statement by statement, and other writers take their statements in
between (`writerStep`).
-/

namespace DiskArcana.Tenancy

open DiskArcana.Core DiskArcana.Lib DiskArcana.Server
open DiskArcana.Accounts (VaultShareRole)

/-! ## The tables -/

/-- Tenant and vault. -/
abbrev VaultKey := Option String × String

/-- Tenant, vault and path. -/
abbrev PathKey := Option String × String × Path

/-- One proof for whatever compares keys. -/
instance : LawfulBEq PathKey := inferInstance

/-- Tenant, vault and user. -/
abbrev MemberKey := Option String × String × String

/-- A row of `vault_members`.
Source: `migrations/016_vault_sharing.sql` -/
structure MemberRow where
  role : VaultShareRole
  grantedBy : String
  createdAt : ℤ
  deriving DecidableEq

/-- A row of `agent_write_revisions`.
Source: `migrations/020_agent_api.sql` -/
structure RevisionRow where
  revision : ℕ
  contentHash : Digest
  updatedAt : ℤ
  updatedBy : String
  deriving DecidableEq

/-- The tenant of a key is NULL. -/
def noTenant {κ : Type} (k : Option String × κ) : Bool := k.1.isNone

structure Tables where
  /-- `UNIQUE (tenant_id, vault_id, path)` -/
  files : SqlRows PathKey FileRow
  /-- `UNIQUE (tenant_id, vault_id, path, version_id)` -/
  fileVersions : SqlRows (Option String × String × Path × ℕ) FileVersionRow
  /-- `UNIQUE (tenant_id, vault_id)`; the row has the time of its creation. -/
  tenantVaults : SqlRows VaultKey ℤ
  /-- `PRIMARY KEY (tenant_id, vault_id, user_id)` -/
  vaultMembers : SqlRows MemberKey MemberRow
  /-- `PRIMARY KEY (tenant_id, vault_id, path)` -/
  agentWriteRevisions : SqlRows PathKey RevisionRow

def Tables.empty : Tables := ⟨[], [], [], [], []⟩

/-- What a statement is refused for. -/
inductive SqlError where
  | uniqueViolation
  | foreignKeyViolation
  deriving DecidableEq

/-! ## Queries -/

namespace Tables

variable (t : Tables)

/-- Source: `meta_db/files.rs`, `get_file_scoped` -/
def getFileScoped (k : PathKey) : Option FileMeta := (SqlRows.select t.files k).map (rowToMeta k.2.2)

/-- Source: `meta_db/billing.rs`, `count_tenant_vaults` -/
def countTenantVaults (tenantId : Option String) : ℕ :=
  t.tenantVaults.countP fun e => e.1.1 = tenantId

/-- Source: `meta_db/agents.rs`, `get_agent_write_revision` -/
def getAgentWriteRevision (k : PathKey) : Option RevisionRow :=
  SqlRows.select t.agentWriteRevisions k

/-- The stored revision; 0 where there is no row. -/
def currentRevision (k : PathKey) : ℕ := ((t.getAgentWriteRevision k).map RevisionRow.revision).getD 0

end Tables

/-! ## Writers -/

/-- What `upsert_file_scoped` does next. -/
inductive FilePhase where
  | update
  | insert
  | done (answer : Except SqlError Unit)

/-- What `upsert_file_scoped_versioned` does next. -/
inductive VersionedPhase where
  | read
  | record (row : FileVersionRow) (versionId parentVersionId : ℕ)
  | update (versionId parentVersionId : ℕ)
  | insert (versionId parentVersionId : ℕ)
  | prune (versionId : ℕ)
  | done (answer : Except SqlError ℕ)

/-- Source: `meta_db/agents.rs`, `RevisionBumpOutcome` -/
inductive RevisionBumpOutcome where
  | applied (newRevision : ℕ)
  | conflict (currentRevision : ℕ)

/-- What `bump_agent_write_revision` does next. -/
inductive RevisionPhase where
  | read
  | write
  | readBack
  | done (answer : RevisionBumpOutcome)

/-- A call that is under way. -/
inductive Writer where
  | file (scope : VaultKey) (m : FileMeta) (phase : FilePhase)
  | versioned (scope : VaultKey) (m : FileMeta) (ctx : MetaDb.FileVersionUpsert)
      (phase : VersionedPhase)
  | vault (k : VaultKey) (done : Bool)
  | member (k : MemberKey) (role : VaultShareRole) (grantedBy : String)
      (answer : Option (Except SqlError Unit))
  | revision (k : PathKey) (expected : ℕ) (contentHash : Digest) (updatedBy : String)
      (phase : RevisionPhase)

/-- The key of a file in a vault. -/
def pathKey (scope : VaultKey) (m : FileMeta) : PathKey := (scope.1, scope.2, m.path)

/-- The row that a bump writes. -/
def bumpRow (expected : ℕ) (contentHash : Digest) (updatedBy : String) (now : ℤ) : RevisionRow :=
  ⟨expected + 1, contentHash, now, updatedBy⟩

/-- Source: `meta_db/files.rs`, `upsert_file_scoped` -/
def fileStep (t : Tables) (scope : VaultKey) (m : FileMeta) : FilePhase → Tables × FilePhase
  | .update =>
      if pathKey scope m ∈ SqlRows.keys t.files then
        ({ t with files := SqlRows.updateWhere t.files (pathKey scope m) fun row =>
            MetaDb.upsertRow (some row) m }, .done (.ok ()))
      else (t, .insert)
  | .insert =>
      match SqlRows.insert noTenant t.files (pathKey scope m) (MetaDb.upsertRow none m) with
      | some files => ({ t with files }, .done (.ok ()))
      | none => (t, .done (.error .uniqueViolation))
  | .done answer => (t, .done answer)

/-- Source: `meta_db/versions.rs`, `upsert_file_scoped_versioned`, `write_file_row` -/
def versionedStep (t : Tables) (scope : VaultKey) (m : FileMeta) (ctx : MetaDb.FileVersionUpsert)
    (now : ℤ) : VersionedPhase → Tables × VersionedPhase
  | .read =>
      match MetaDb.nextVersion (SqlRows.select t.files (pathKey scope m)) m ctx.createdBy now with
      | (v, p, some row) => (t, .record row v p)
      | (v, p, none) => (t, .update v p)
  | .record row v p =>
      match SqlRows.insert noTenant t.fileVersions (scope.1, scope.2, m.path, row.versionId) row with
      | some fileVersions => ({ t with fileVersions }, .update v p)
      | none => (t, .done (.error .uniqueViolation))
  | .update v p =>
      if pathKey scope m ∈ SqlRows.keys t.files then
        ({ t with files := SqlRows.updateWhere t.files (pathKey scope m) fun _ =>
            fileRowOfMeta m (some v) (some p) }, .prune v)
      else (t, .insert v p)
  | .insert v p =>
      match SqlRows.insert noTenant t.files (pathKey scope m)
          (fileRowOfMeta m (some v) (some p)) with
      | some files => ({ t with files }, .prune v)
      | none => (t, .done (.error .uniqueViolation))
  | .prune v =>
      let mine := t.fileVersions.filter fun e => e.1.1 = scope.1 ∧ e.1.2.1 = scope.2
      let kept := MetaDb.pruneFileVersions (mine.map Prod.snd) m.path ctx.retention now
      ({ t with fileVersions := t.fileVersions.filter fun e =>
          ¬ (e.1.1 = scope.1 ∧ e.1.2.1 = scope.2) ∨ e.2 ∈ kept }, .done (.ok v))
  | .done answer => (t, .done answer)

/-- Source: `meta_db/billing.rs`, `register_tenant_vault` -/
def vaultStep (t : Tables) (k : VaultKey) (now : ℤ) : Tables :=
  { t with tenantVaults := SqlRows.insertOrIgnore noTenant t.tenantVaults k now }

/-- Users are accounts.
Source: `meta_db/sharing.rs`, `upsert_vault_member` -/
def memberStep (accounts : List String) (t : Tables) (k : MemberKey) (role : VaultShareRole)
    (grantedBy : String) (now : ℤ) : Tables × Except SqlError Unit :=
  if k.2.2 ∈ accounts ∧ grantedBy ∈ accounts then
    let row : MemberRow := ⟨role, grantedBy, now⟩
    ({ t with vaultMembers := SqlRows.upsert noTenant t.vaultMembers k row (fun _ => row) }, .ok ())
  else (t, .error .foreignKeyViolation)

/-- Source: `meta_db/agents.rs`, `bump_agent_write_revision` -/
def revisionStep (t : Tables) (k : PathKey) (expected : ℕ) (contentHash : Digest)
    (updatedBy : String) (now : ℤ) : RevisionPhase → Tables × RevisionPhase
  | .read =>
      if t.currentRevision k ≠ expected then (t, .done (.conflict (t.currentRevision k)))
      else (t, .write)
  | .write =>
      let row := bumpRow expected contentHash updatedBy now
      ({ t with agentWriteRevisions := SqlRows.upsert noTenant t.agentWriteRevisions k row fun old =>
          if old.revision = expected then row else old }, .readBack)
  | .readBack =>
      if t.currentRevision k = expected + 1 then (t, .done (.applied (t.currentRevision k)))
      else (t, .done (.conflict (t.currentRevision k)))
  | .done answer => (t, .done answer)

/-- The next statement of a call. `accounts` are the users that there are. -/
def writerStep (accounts : List String) (now : ℤ) (t : Tables) : Writer → Tables × Writer
  | .file scope m phase =>
      let (t, phase) := fileStep t scope m phase
      (t, .file scope m phase)
  | .versioned scope m ctx phase =>
      let (t, phase) := versionedStep t scope m ctx now phase
      (t, .versioned scope m ctx phase)
  | .vault k false => (vaultStep t k now, .vault k true)
  | .vault k true => (t, .vault k true)
  | .member k role grantedBy none =>
      let (t, answer) := memberStep accounts t k role grantedBy now
      (t, .member k role grantedBy (some answer))
  | .member k role grantedBy (some answer) => (t, .member k role grantedBy (some answer))
  | .revision k expected contentHash updatedBy phase =>
      let (t, phase) := revisionStep t k expected contentHash updatedBy now phase
      (t, .revision k expected contentHash updatedBy phase)

/-! ## Runs -/

/-- The tables and the calls on them. -/
structure WriterState where
  tables : Tables
  writers : Table ℕ Writer

def WriterState.new : WriterState := ⟨.empty, ∅⟩

inductive WriterEvent where
  /-- Calls come in. -/
  | upsertFileScoped (id : ℕ) (scope : VaultKey) (m : FileMeta)
  | upsertFileScopedVersioned (id : ℕ) (scope : VaultKey) (m : FileMeta)
      (ctx : MetaDb.FileVersionUpsert)
  | registerTenantVault (id : ℕ) (k : VaultKey)
  | upsertVaultMember (id : ℕ) (k : MemberKey) (role : VaultShareRole) (grantedBy : String)
  | bumpAgentWriteRevision (id : ℕ) (k : PathKey) (expected : ℕ) (contentHash : Digest)
      (updatedBy : String)
  /-- A call takes its next statement, at some time. -/
  | proceed (id : ℕ) (now : ℤ)

/-- A call that comes in under an identifier that is taken is not a call. -/
def WriterState.arrive (s : WriterState) (id : ℕ) (w : Writer) : WriterState :=
  if (s.writers.lookup id).isSome then s else { s with writers := s.writers.insert id w }

def runStep (accounts : List String) (s : WriterState) : WriterEvent → WriterState
  | .upsertFileScoped id scope m => s.arrive id (.file scope m .update)
  | .upsertFileScopedVersioned id scope m ctx => s.arrive id (.versioned scope m ctx .read)
  | .registerTenantVault id k => s.arrive id (.vault k false)
  | .upsertVaultMember id k role grantedBy => s.arrive id (.member k role grantedBy none)
  | .bumpAgentWriteRevision id k expected contentHash updatedBy =>
      s.arrive id (.revision k expected contentHash updatedBy .read)
  | .proceed id now =>
      match s.writers.lookup id with
      | none => s
      | some w =>
          let (t, w) := writerStep accounts now s.tables w
          ⟨t, s.writers.insert id w⟩

end DiskArcana.Tenancy
