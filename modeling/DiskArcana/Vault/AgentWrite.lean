import DiskArcana.Vault.Model

/-!
# Agent writes

`agent_write` on one path of one vault. A call is a sequence of steps, a statement or a file operation
each, and any number of calls may be under way, each at some point of the sequence (`AgentPhase`);
`stepAgent` makes the next step of one. The call looks the revision up and compares it with the one
that the agent expects, writes the file, and only then bumps the revision, which takes three
statements of its own: look up and compare again, update where the revision is the expected one, look
up whether the new revision is there.

`agent_write_revisions` has the tenant in its primary key; rows of no tenant never conflict, so every
insert adds one. Base64 is a parameter.
-/

namespace DiskArcana.Vault

open DiskArcana.Core DiskArcana.Lib DiskArcana.Lib.LexicalPath DiskArcana.Server
open DiskArcana.Lib.UnixFs DiskArcana.Lib.UnixFs.FileSystem
open DiskArcana.Hosting (dbKey isWhitespace normalizeRelPath)

/-! ## The revisions of the path -/

/-- A row of `agent_write_revisions`.
Source: `migrations/020_agent_api.sql` -/
structure RevisionRow where
  revision : ℕ
  contentHash : Digest
  updatedAt : ℤ
  updatedBy : String

/-- The revision of the path; 0 before the first write.
Source: `meta_db/agents.rs`, `get_agent_write_revision` -/
def currentRevision (revisions : List RevisionRow) : ℕ := (revisions.head?.map RevisionRow.revision).getD 0

/-- `INSERT … ON CONFLICT(tenant_id, vault_id, path) DO UPDATE … WHERE revision = expected`.
Source: `meta_db/agents.rs`, `bump_agent_write_revision` -/
def upsertRevision (tenantId : Option String) (revisions : List RevisionRow) (expected : ℕ)
    (row : RevisionRow) : List RevisionRow :=
  match tenantId, revisions with
  | some _, current :: rest => if current.revision = expected then row :: rest else revisions
  | _, _ => revisions ++ [row]

/-! ## Calls -/

/-- Where a call of `agent_write` stands: what it does next, with what it has found out. -/
inductive AgentPhase where
  /-- Look the revision up. -/
  | admitted
  /-- Compare it with the expected one. -/
  | looked (current : ℕ)
  /-- Ask the path guard. -/
  | compared
  /-- Create the directories. -/
  | guarded (target : Location)
  /-- Archive the bytes to be replaced. -/
  | prepared (target : Location)
  /-- Write the file. -/
  | archived (target : Location)
  /-- Look the revision up again. -/
  | written (target : Location)
  /-- Update it. -/
  | bumping (target : Location)
  /-- Look whether the update went through. -/
  | bumped (target : Location)
  /-- Look up what the plan retains. -/
  | revised (target : Location) (revision : ℕ)
  /-- Upsert the row of the file. -/
  | planned (target : Location) (revision : ℕ) (retention : MetaDb.VersionRetention)
  /-- Store the bytes, and answer. -/
  | upserted (target : Location) (revision : ℕ)
  | answered (target : Location) (revision : ℕ)
  | failed (status : ℕ) (message : String)

/-- The answer to a call that lost: status 409.
Source: `agents/routes.rs`, `agent_write_inner` -/
def AgentPhase.revisionConflict : AgentPhase := .failed 409 "revision_conflict"

/-- A call of `agent_write`. -/
structure AgentCall where
  bytes : Bytes
  expected : ℕ
  user : String
  agentLabel : String
  phase : AgentPhase

/-- A request to write.
Source: `agents/routes.rs`, `AgentWriteRequest` -/
structure AgentWriteRequest where
  path : String
  contentBase64 : String
  ifMatchRevision : Option ℕ
  agentId : Option String
  /-- Session, account and access to the vault: the user, or status and message. -/
  admitted : Except (ℕ × String) String

/-- What the environment answers to one step. -/
structure AgentAnswers extends FileAnswers where
  dbOk : Bool
  retention : MetaDb.VersionRetention

/-- The vault, the revisions of the path, and the calls under way, by identifiers. -/
structure AgentState where
  vault : VaultState
  revisions : List RevisionRow
  calls : Table ℕ AgentCall

/-- `str::trim` -/
def trim (s : String) : String :=
  String.ofList ((s.toList.dropWhile isWhitespace).reverse.dropWhile isWhitespace).reverse

section

variable (decodeBase64 : String → Option Bytes) (blake3 : Bytes → Digest) (cfg : VaultConfig)
  (path : String)

/-- A request for the path becomes a call; `none` when it is for another path.
Source: `agents/routes.rs`, `agent_write_inner` -/
def admitCall (req : AgentWriteRequest) : Option AgentCall :=
  let expected := req.ifMatchRevision.getD 0
  match normalizeRelPath req.path with
  | .error e => some ⟨[], expected, "", "", .failed 400 e⟩
  | .ok p =>
    if p = path then
      match decodeBase64 (trim req.contentBase64) with
      | none => some ⟨[], expected, "", "", .failed 400 "invalid content_base64"⟩
      | some bytes =>
        match req.admitted with
        | .error e => some ⟨bytes, expected, "", "", .failed e.1 e.2⟩
        | .ok user =>
          let agentLabel := (req.agentId.filter fun label => !label.isEmpty).getD user
          some ⟨bytes, expected, user, agentLabel, .admitted⟩
    else none

/-! ## One step of a call -/

/-- The row of a written file, its clock ticked once by the agent. -/
def agentMeta (call : AgentCall) (target : Location) (a : AgentAnswers) : FileMeta :=
  restoredMeta call.agentLabel (rowKey cfg target) (blake3 call.bytes) call.bytes.length none
    a.mtimeNs

/-- The row that a bump writes. -/
def bumpRow (call : AgentCall) (a : AgentAnswers) : RevisionRow :=
  ⟨call.expected + 1, blake3 call.bytes, a.now, call.agentLabel⟩

/-- The next step of a call.
Source: `agents/routes.rs`, `agent_write_inner`; `meta_db/agents.rs`, `bump_agent_write_revision` -/
def stepAgent (s : AgentState) (a : AgentAnswers) (call : AgentCall) :
    VaultState × List RevisionRow × AgentPhase :=
  let v := s.vault
  match call.phase with
  | .admitted =>
      (v, s.revisions,
        if a.dbOk then .looked (currentRevision s.revisions) else .failed 500 "database error")
  | .looked current =>
      (v, s.revisions, if call.expected ≠ current then .revisionConflict else .compared)
  | .compared =>
      (v, s.revisions, match validate cfg v.fs path with
        | .ok target => .guarded target
        | .error _ => .failed 400 "invalid path")
  | .guarded target =>
      let dirs := makeParents v.fs target a.dirOk
      ({ v with fs := dirs.1 }, s.revisions,
        if dirs.2 then .prepared target else .failed 500 "write failed")
  | .prepared target =>
      ({ v with versionBlobs := archive v (dbKey path) target a.archiveOk }, s.revisions,
        .archived target)
  | .archived target =>
      let written := writeTarget v.fs target call.bytes a.write
      ({ v with fs := written.1 }, s.revisions,
        if written.2 then .written target else .failed 500 "write failed")
  | .written target =>
      (v, s.revisions,
        if !a.dbOk then .failed 500 "database error"
        else if currentRevision s.revisions ≠ call.expected then .revisionConflict
        else .bumping target)
  | .bumping target =>
      if a.dbOk then
        (v, upsertRevision v.db.tenantId s.revisions call.expected (bumpRow blake3 call a),
          .bumped target)
      else (v, s.revisions, .failed 500 "database error")
  | .bumped target =>
      (v, s.revisions,
        if !a.dbOk then .failed 500 "database error"
        else if currentRevision s.revisions = call.expected + 1 then
          .revised target (call.expected + 1)
        else .revisionConflict)
  | .revised target revision =>
      (v, s.revisions,
        if a.dbOk then .planned target revision a.retention else .failed 500 "database error")
  | .planned target revision retention =>
      match v.db.upsertFileScopedVersioned (agentMeta blake3 cfg call target a)
          ⟨call.user, retention⟩ a.now, a.upsertOk with
      | some db, true => ({ v with db := db }, s.revisions, .upserted target revision)
      | _, _ => (v, s.revisions, .failed 500 "database error")
  | .upserted target revision =>
      ({ v with versionBlobs := storeBlob v.versionBlobs (blake3 call.bytes) call.bytes a.blobOk },
        s.revisions, .answered target revision)
  | .answered target revision => (v, s.revisions, .answered target revision)
  | .failed status message => (v, s.revisions, .failed status message)

/-! ## All calls -/

/-- A step of some call. -/
inductive AgentEvent where
  | arrive (id : ℕ) (req : AgentWriteRequest)
  | proceed (id : ℕ) (a : AgentAnswers)

/-- One step. An event that no call is waiting for does nothing.
Source: `agents/routes.rs`, `agent_write` -/
def agentStep (s : AgentState) : AgentEvent → AgentState
  | .arrive id req =>
      match s.calls.lookup id, admitCall decodeBase64 path req with
      | none, some call => { s with calls := s.calls.insert id call }
      | _, _ => s
  | .proceed id a =>
      match s.calls.lookup id with
      | none => s
      | some call =>
          let next := stepAgent blake3 cfg path s a call
          { vault := next.1
            revisions := next.2.1
            calls := s.calls.insert id { call with phase := next.2.2 } }

/-- A vault and the revisions of the path as they are, and no call under way. -/
def noAgents (v : VaultState) (revisions : List RevisionRow) : AgentState := ⟨v, revisions, ∅⟩

end

end DiskArcana.Vault
