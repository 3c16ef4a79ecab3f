import DiskArcana.Accounts.Model
import DiskArcana.Lib.Relational

/-!
# The tables of the control database

Every table of the migrations, with the columns that name a tenant, a user or another row, the unique
keys and the foreign keys. `serverStep` is what the operations of the server write into them, one
transaction each.
-/

namespace DiskArcana.Compliance

open DiskArcana.Lib.Relational DiskArcana.Accounts

/-! ## Tables and columns -/

inductive TableName where
  | files | tombstones | syncQueue | conflicts | nodes | aclMeta | nodeCerts | nodeShares
  | pendingEnrollments | auditEvent | publisherKeys | publisherCounter | nodeBaselines | tenantBilling
  | tenantVaults | userAccounts | consentEvents | fileVersions | vaultSnapshots | vaultSnapshotFiles
  | vaultInvites | vaultMembers | deviceSyncIncludes | userOnboarding | userTelemetry | agentWebhooks
  | agentWriteRevisions | organizations | organizationMembers | userOrgContext
  deriving DecidableEq, Repr

/-- Every table, in the order of the migrations. -/
def TableName.all : List TableName :=
  [.files, .tombstones, .syncQueue, .conflicts, .nodes, .aclMeta, .nodeCerts, .nodeShares,
    .pendingEnrollments, .auditEvent, .publisherKeys, .publisherCounter, .nodeBaselines, .tenantBilling,
    .tenantVaults, .userAccounts, .consentEvents, .fileVersions, .vaultSnapshots, .vaultSnapshotFiles,
    .vaultInvites, .vaultMembers, .deviceSyncIncludes, .userOnboarding, .userTelemetry, .agentWebhooks,
    .agentWriteRevisions, .organizations, .organizationMembers, .userOrgContext]

theorem TableName.mem_all (t : TableName) : t ∈ TableName.all := by
  cases t <;> decide

instance {P : TableName → Prop} [DecidablePred P] : Decidable (∀ t, P t) :=
  decidable_of_iff (∀ t ∈ TableName.all, P t) ⟨fun h t => h t t.mem_all, fun h t _ => h t⟩

inductive Column where
  | id | tenantId | tenantKey | vaultId | path | versionId | userId | createdBy | redeemedBy | grantedBy
  | updatedBy | email | nodeId | certFingerprint | shareName | tokenHash | snapshotId | pathPrefix | slug
  | orgId | activeOrgId
  deriving DecidableEq, Repr

inductive Value where
  | text (t : Text)
  | integer (n : ℤ)
  | blob (b : Bytes)
  deriving DecidableEq

abbrev ControlRow := Row Column Value

abbrev ControlDb := Db TableName Column Value

def ControlDb.empty : ControlDb := fun _ => []

/-- The tables with a column `tenant_id`. -/
def TableName.isTenantScoped : TableName → Bool
  | .files | .tombstones | .syncQueue | .conflicts | .nodes | .pendingEnrollments | .nodeBaselines
  | .tenantBilling | .tenantVaults | .userAccounts | .consentEvents | .fileVersions | .vaultSnapshots
  | .vaultSnapshotFiles | .vaultInvites | .vaultMembers | .deviceSyncIncludes | .agentWebhooks
  | .agentWriteRevisions | .organizations => true
  | _ => false

/-- The columns that hold the `id` of a user. -/
def TableName.userColumns : TableName → List Column
  | .userAccounts => [.id]
  | .files | .nodes | .consentEvents | .deviceSyncIncludes | .userOnboarding | .userTelemetry
  | .organizationMembers | .userOrgContext => [.userId]
  | .fileVersions | .vaultSnapshots | .organizations => [.createdBy]
  | .vaultInvites => [.createdBy, .redeemedBy]
  | .vaultMembers => [.userId, .grantedBy]
  | .agentWriteRevisions => [.updatedBy]
  | _ => []

/-! ## Constraints -/

/-- Primary keys and unique indexes. -/
def uniqueKeys : TableName → List (List Column)
  | .files => [[.tenantId, .vaultId, .path]]
  | .nodes => [[.id], [.nodeId]]
  | .nodeCerts => [[.certFingerprint]]
  | .nodeShares => [[.certFingerprint, .shareName]]
  | .pendingEnrollments => [[.tokenHash]]
  | .publisherKeys => [[.certFingerprint]]
  | .publisherCounter => [[.certFingerprint, .shareName]]
  | .nodeBaselines => [[.tenantKey, .nodeId, .vaultId, .path]]
  | .tenantBilling => [[.tenantId]]
  | .tenantVaults => [[.tenantId, .vaultId]]
  | .userAccounts => [[.id], [.email]]
  | .fileVersions => [[.tenantId, .vaultId, .path, .versionId]]
  | .vaultSnapshots => [[.id]]
  | .vaultSnapshotFiles => [[.snapshotId, .path]]
  | .vaultInvites => [[.id], [.tokenHash]]
  | .vaultMembers => [[.tenantId, .vaultId, .userId]]
  | .deviceSyncIncludes => [[.tenantId, .userId, .nodeId, .vaultId, .pathPrefix]]
  | .userOnboarding | .userTelemetry | .userOrgContext => [[.userId]]
  | .agentWebhooks => [[.id]]
  | .agentWriteRevisions => [[.tenantId, .vaultId, .path]]
  | .organizations => [[.id], [.slug], [.tenantId]]
  | .organizationMembers => [[.orgId, .userId]]
  | _ => []

/-- The references to `user_accounts`, none of which cascades. -/
def userReferences : List (ForeignKey TableName Column) :=
  [⟨.vaultInvites, .createdBy, .userAccounts, .id, false⟩,
    ⟨.vaultMembers, .userId, .userAccounts, .id, false⟩,
    ⟨.vaultMembers, .grantedBy, .userAccounts, .id, false⟩,
    ⟨.deviceSyncIncludes, .userId, .userAccounts, .id, false⟩,
    ⟨.organizations, .createdBy, .userAccounts, .id, false⟩,
    ⟨.organizationMembers, .userId, .userAccounts, .id, false⟩,
    ⟨.userOrgContext, .userId, .userAccounts, .id, false⟩]

/-- The other references. -/
def otherReferences : List (ForeignKey TableName Column) :=
  [⟨.nodeCerts, .nodeId, .nodes, .id, true⟩,
    ⟨.nodeShares, .certFingerprint, .nodeCerts, .certFingerprint, true⟩,
    ⟨.publisherKeys, .certFingerprint, .nodeCerts, .certFingerprint, true⟩,
    ⟨.vaultSnapshotFiles, .snapshotId, .vaultSnapshots, .id, true⟩,
    ⟨.organizationMembers, .orgId, .organizations, .id, false⟩,
    ⟨.userOrgContext, .activeOrgId, .organizations, .id, false⟩]

def schema : Schema TableName Column := ⟨uniqueKeys, userReferences ++ otherReferences⟩

/-! ## What the server writes -/

/-- A row with values in some of its columns. -/
def row (values : List (Column × Option Value)) : ControlRow :=
  fun c => (values.find? fun e => e.1 = c).bind Prod.snd

def text (t : Text) : Option Value := some (.text t)

def textOrNull (t : Option Text) : Option Value := t.map .text

inductive Write where
  | insert (t : TableName) (r : ControlRow)
  | insertOrIgnore (t : TableName) (r : ControlRow)
  | upsert (t : TableName) (r : ControlRow) (key set : List Column)
  | update (t : TableName) (p : ControlRow → Bool) (column : Column) (value : Option Value)

def Write.apply (d : ControlDb) : Write → Option ControlDb
  | .insert t r => Lib.Relational.insert schema d t r
  | .insertOrIgnore t r => if clashes schema d t r then some d else Lib.Relational.insert schema d t r
  | .upsert t r key set => Lib.Relational.upsert schema d t r key set
  | .update t p column value => some (updateWhere d t p column value)

/-- The operations that fill the tables. -/
inductive ServerOp where
  | createUserAccount (id email tenantId : Text)
  | recordConsentEvent (userId tenantId : Text)
  | setTelemetryOptIn (userId : Text)
  | dismissOnboarding (userId : Text)
  | registerTenantVault (tenantId : Option Text) (vaultId : Text)
  | setPlanTier (tenantId : Option Text)
  | upsertFile (tenantId : Option Text) (vaultId path : Text)
  | insertFileVersion (tenantId : Option Text) (vaultId path : Text) (versionId : ℤ) (createdBy : Text)
  | insertTombstone (tenantId : Option Text) (vaultId path : Text)
  | insertConflict (tenantId : Option Text) (vaultId path : Text)
  | upsertNodeBaseline (tenantId : Option Text) (nodeId vaultId path : Text)
  | createVaultSnapshot (id : ℤ) (tenantId : Option Text) (vaultId createdBy : Text) (paths : List Text)
  | insertVaultInvite (id : Text) (tenantId : Option Text) (vaultId : Text) (tokenHash : Bytes)
      (createdBy : Text)
  | redeemVaultInvite (id userId : Text)
  | upsertVaultMember (tenantId : Option Text) (vaultId userId grantedBy : Text)
  | includePath (tenantId : Option Text) (userId nodeId vaultId pathPrefix : Text)
  | createOrganization (id slug tenantId createdBy : Text)
  | addOrganizationMember (orgId userId : Text)
  | setActiveOrganization (userId : Text) (orgId : Option Text)
  | insertAgentWebhook (id : Text) (tenantId : Option Text) (vaultId : Text)
  | bumpAgentWriteRevision (tenantId : Option Text) (vaultId path updatedBy : Text)
  | insertPendingEnrollment (tokenHash : Bytes) (tenantId : Option Text)
  | registerNode (id : ℤ) (nodeId : Text) (tenantId : Option Text)
  | insertNodeCert (certFingerprint : Bytes) (nodeId : ℤ)

/-- Source: the `INSERT` and `UPDATE` statements of `meta_db/` and `enrollment/mod.rs` -/
def ServerOp.writes : ServerOp → List Write
  | .createUserAccount id email tenantId => [.insert .userAccounts
      (row [(.id, text id), (.email, text (toAsciiLowercase email)), (.tenantId, text tenantId)])]
  | .recordConsentEvent userId tenantId => [.insert .consentEvents
      (row [(.userId, text userId), (.tenantId, text tenantId)])]
  | .setTelemetryOptIn userId => [.upsert .userTelemetry (row [(.userId, text userId)]) [.userId] []]
  | .dismissOnboarding userId => [.upsert .userOnboarding (row [(.userId, text userId)]) [.userId] []]
  | .registerTenantVault tenantId vaultId => [.insertOrIgnore .tenantVaults
      (row [(.tenantId, textOrNull tenantId), (.vaultId, text vaultId)])]
  | .setPlanTier tenantId =>
      [.upsert .tenantBilling (row [(.tenantId, textOrNull tenantId)]) [.tenantId] []]
  | .upsertFile tenantId vaultId path => [.upsert .files
      (row [(.tenantId, textOrNull tenantId), (.vaultId, text vaultId), (.path, text path)])
      [.tenantId, .vaultId, .path] []]
  | .insertFileVersion tenantId vaultId path versionId createdBy => [.insert .fileVersions
      (row [(.tenantId, textOrNull tenantId), (.vaultId, text vaultId), (.path, text path),
        (.versionId, some (.integer versionId)), (.createdBy, text createdBy)])]
  | .insertTombstone tenantId vaultId path => [.insert .tombstones
      (row [(.tenantId, textOrNull tenantId), (.vaultId, text vaultId), (.path, text path)])]
  | .insertConflict tenantId vaultId path => [.insert .conflicts
      (row [(.tenantId, textOrNull tenantId), (.vaultId, text vaultId), (.path, text path)])]
  | .upsertNodeBaseline tenantId nodeId vaultId path => [.upsert .nodeBaselines
      (row [(.tenantKey, text (tenantId.getD [])), (.tenantId, textOrNull tenantId),
        (.nodeId, text nodeId), (.vaultId, text vaultId), (.path, text path)])
      [.tenantKey, .nodeId, .vaultId, .path] []]
  | .createVaultSnapshot id tenantId vaultId createdBy paths =>
      .insert .vaultSnapshots (row [(.id, some (.integer id)), (.tenantId, textOrNull tenantId),
        (.vaultId, text vaultId), (.createdBy, text createdBy)]) ::
      paths.map fun path => .insert .vaultSnapshotFiles (row [(.snapshotId, some (.integer id)),
        (.tenantId, textOrNull tenantId), (.vaultId, text vaultId), (.path, text path)])
  | .insertVaultInvite id tenantId vaultId tokenHash createdBy => [.insert .vaultInvites
      (row [(.id, text id), (.tenantId, textOrNull tenantId), (.vaultId, text vaultId),
        (.tokenHash, some (.blob tokenHash)), (.createdBy, text createdBy)])]
  | .redeemVaultInvite id userId => [.update .vaultInvites
      (fun r => r .id = text id && r .redeemedBy = none) .redeemedBy (text userId)]
  | .upsertVaultMember tenantId vaultId userId grantedBy => [.upsert .vaultMembers
      (row [(.tenantId, textOrNull tenantId), (.vaultId, text vaultId), (.userId, text userId),
        (.grantedBy, text grantedBy)]) [.tenantId, .vaultId, .userId] [.grantedBy]]
  | .includePath tenantId userId nodeId vaultId pathPrefix => [.insert .deviceSyncIncludes
      (row [(.tenantId, textOrNull tenantId), (.userId, text userId), (.nodeId, text nodeId),
        (.vaultId, text vaultId), (.pathPrefix, text pathPrefix)])]
  | .createOrganization id slug tenantId createdBy => [.insert .organizations
      (row [(.id, text id), (.slug, text (toAsciiLowercase slug)), (.tenantId, text tenantId),
        (.createdBy, text createdBy)])]
  | .addOrganizationMember orgId userId => [.insert .organizationMembers
      (row [(.orgId, text orgId), (.userId, text userId)])]
  | .setActiveOrganization userId orgId => [.upsert .userOrgContext
      (row [(.userId, text userId), (.activeOrgId, textOrNull orgId)]) [.userId] [.activeOrgId]]
  | .insertAgentWebhook id tenantId vaultId => [.insert .agentWebhooks
      (row [(.id, text id), (.tenantId, textOrNull tenantId), (.vaultId, text vaultId)])]
  | .bumpAgentWriteRevision tenantId vaultId path updatedBy => [.upsert .agentWriteRevisions
      (row [(.tenantId, textOrNull tenantId), (.vaultId, text vaultId), (.path, text path),
        (.updatedBy, text updatedBy)]) [.tenantId, .vaultId, .path] [.updatedBy]]
  | .insertPendingEnrollment tokenHash tenantId => [.insert .pendingEnrollments
      (row [(.tokenHash, some (.blob tokenHash)), (.tenantId, textOrNull tenantId)])]
  | .registerNode id nodeId tenantId => [.insert .nodes
      (row [(.id, some (.integer id)), (.nodeId, text nodeId), (.tenantId, textOrNull tenantId)])]
  | .insertNodeCert certFingerprint nodeId => [.insert .nodeCerts
      (row [(.certFingerprint, some (.blob certFingerprint)), (.nodeId, some (.integer nodeId))])]

/-- An operation is one transaction. -/
def serverStep (d : ControlDb) (op : ServerOp) : ControlDb := (op.writes.foldlM Write.apply d).getD d

end DiskArcana.Compliance
