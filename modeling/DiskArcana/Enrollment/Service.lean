import DiskArcana.Acl.Loader

/-!
# The enrollment service

`enrollment/mod.rs` over the tables it keeps: the tokens that were issued, the nodes and their
certificates. A call of `enroll` is a sequence of steps with an await after each, so any number of
calls may be under way, each at some point of the sequence (`EnrollPhase`); `stepCall` makes the next
step of one. `revoke_pending` updates the token, and answers later.

The certificate authority and the parser of certificates are outside: what the authority answers comes
with the step, and the fingerprint of a certificate is a parameter. Tokens are known by their hash.
-/

namespace DiskArcana.Enrollment

open DiskArcana.Core DiskArcana.Lib DiskArcana.Acl

/-- The hash of an enrollment token, by which the tables know it. -/
abbrev TokenHash := Digest

/-- A row of `pending_enrollments`. -/
structure PendingEnrollment where
  nodeIdHint : String
  issuedAt : ℕ
  expiresAt : ℕ
  consumedAt : Option ℕ
  consumedCertFp : Option CertFingerprint
  revokedAt : Option ℕ
  tenantId : Option String

/-- A row of `nodes`, as far as enrollment goes. -/
structure NodeRow where
  id : ℕ
  tenantId : Option String
  registeredAt : ℕ

/-- A row of `node_certs`. -/
structure NodeCert where
  nodeId : ℕ
  enrolledAt : ℕ
  expiresAt : ℕ

/-- What the certificate authority returns.
Source: `enrollment/ca_client.rs` -/
structure CaCert where
  clientCertPem : Bytes
  caChainPem : Bytes

/-- Where a call of `enroll` stands: what it does next, with what it has found out. -/
inductive EnrollPhase where
  /-- Look the token up. -/
  | arrived
  /-- Ask the authority for a certificate. -/
  | validated (tenant : Option String)
  /-- Insert a placeholder node. -/
  | signed (tenant : Option String) (certFp : CertFingerprint)
  /-- Bind the node to the tenant of the token. -/
  | inserted (tenant : String) (certFp : CertFingerprint)
  /-- Look the node up. -/
  | bound (certFp : CertFingerprint)
  /-- Record the certificate. -/
  | located (certFp : CertFingerprint) (nodeRow : ℕ)
  /-- Mark the token consumed. -/
  | recorded (certFp : CertFingerprint)
  | finished
  | failed (message : String)

/-- A call of `enroll`: its request, and the certificate once it has one. -/
structure EnrollCall where
  tokenHash : TokenHash
  csrPem : Bytes
  nodeIdHint : String
  nowMs : ℕ
  cert : Option CaCert
  phase : EnrollPhase

/-- The tables. -/
structure EnrollDb where
  pending : Table TokenHash PendingEnrollment
  nodes : Table String NodeRow
  nextNode : ℕ
  nodeCerts : Table CertFingerprint NodeCert

/-- What the environment answers to one step. -/
structure StepAnswer where
  db : Except String Unit
  ca : Except String CaCert

/-! ## Tokens -/

/-- Source: `enrollment/mod.rs`, `DEFAULT_TTL_SECS` -/
def defaultTtlSecs : ℕ := 3600

/-- Source: `enrollment/mod.rs`, `MAX_TTL_SECS` -/
def maxTtlSecs : ℕ := 86400

/-- Store a new token. The hash is the primary key.
Source: `enrollment/mod.rs`, `issue_pending_token` -/
def issuePendingToken (d : EnrollDb) (tokenHash : TokenHash) (nodeIdHint : String)
    (ttlSeconds nowMs : ℕ) (tenant : Option String) : EnrollDb :=
  let ttlSecs := if ttlSeconds = 0 then defaultTtlSecs else min ttlSeconds maxTtlSecs
  match d.pending.lookup tokenHash with
  | some _ => d
  | none =>
      { d with
        pending := d.pending.insert tokenHash
          { nodeIdHint := nodeIdHint
            issuedAt := nowMs
            expiresAt := nowMs + ttlSecs * 1000
            consumedAt := none
            consumedCertFp := none
            revokedAt := none
            tenantId := tenant } }

/-- Mark a token revoked, if it is neither consumed nor revoked; whether a row was changed.
Source: `enrollment/mod.rs`, `revoke_pending` -/
def revokePending (d : EnrollDb) (tokenHash : TokenHash) (nowMs : ℕ) : Bool × EnrollDb :=
  match d.pending.lookup tokenHash with
  | some row =>
      if row.consumedAt.isNone && row.revokedAt.isNone then
        (true, { d with
          pending := d.pending.insert tokenHash { row with revokedAt := some nowMs } })
      else (false, d)
  | none => (false, d)

/-! ## One step of a call -/

/-- The checks on the row of a token.
Source: `enrollment/mod.rs`, `enroll` -/
def checkToken (row : Option PendingEnrollment) (nowMs : ℕ) : Except String (Option String) :=
  match row with
  | none => .error "enrollment.not_found"
  | some row =>
      if row.revokedAt.isSome then .error "enrollment.revoked"
      else if row.consumedAt.isSome then .error "enrollment.replay"
      else if row.expiresAt < nowMs then .error "enrollment.expired"
      else .ok row.tenantId

/-- `INSERT OR IGNORE INTO nodes` -/
def insertNode (d : EnrollDb) (tenant : Option String) (nodeId : String) (nowMs : ℕ) : EnrollDb :=
  match d.nodes.lookup nodeId with
  | some _ => d
  | none =>
      { d with
        nodes := d.nodes.insert nodeId ⟨d.nextNode, tenant, nowMs⟩
        nextNode := d.nextNode + 1 }

/-- `UPDATE nodes SET tenant_id` -/
def bindTenant (d : EnrollDb) (tenant : String) (nodeId : String) : EnrollDb :=
  match d.nodes.lookup nodeId with
  | some row => { d with nodes := d.nodes.insert nodeId { row with tenantId := some tenant } }
  | none => d

/-- `UPDATE pending_enrollments SET consumed_at`, whatever the row holds by then. -/
def consumeToken (d : EnrollDb) (tokenHash : TokenHash) (nowMs : ℕ) (certFp : CertFingerprint) :
    EnrollDb :=
  match d.pending.lookup tokenHash with
  | some row =>
      { d with
        pending := d.pending.insert tokenHash
          { row with consumedAt := some nowMs, consumedCertFp := some certFp } }
  | none => d

section

variable (fingerprintFromPem : Bytes → Except String CertFingerprint)

/-- The step of a call that asks the authority. -/
def stepSign (answer : StepAnswer) (call : EnrollCall) (tenant : Option String) : EnrollCall :=
  match answer.ca with
  | .error e => { call with phase := .failed s!"CA request failed: {e}" }
  | .ok cert =>
      match fingerprintFromPem cert.clientCertPem with
      | .error e => { call with cert := some cert, phase := .failed s!"cert fingerprint: {e}" }
      | .ok certFp => { call with cert := some cert, phase := .signed tenant certFp }

/-- The next step of a call.
Source: `enrollment/mod.rs`, `enroll` -/
def stepCall (d : EnrollDb) (answer : StepAnswer) (call : EnrollCall) : EnrollDb × EnrollCall :=
  match call.phase with
  | .arrived =>
      match answer.db with
      | .error e => (d, { call with phase := .failed s!"db: {e}" })
      | .ok () =>
          match checkToken (d.pending.lookup call.tokenHash) call.nowMs with
          | .error e => (d, { call with phase := .failed e })
          | .ok tenant => (d, { call with phase := .validated tenant })
  | .validated tenant => (d, stepSign fingerprintFromPem answer call tenant)
  | .signed tenant certFp =>
      match answer.db with
      | .error e => (d, { call with phase := .failed s!"db (node insert): {e}" })
      | .ok () =>
          (insertNode d tenant call.nodeIdHint call.nowMs,
            { call with
              phase := match tenant with
                | some tenant => .inserted tenant certFp
                | none => .bound certFp })
  | .inserted tenant certFp =>
      match answer.db with
      | .error e => (d, { call with phase := .failed s!"db (node tenant bind): {e}" })
      | .ok () => (bindTenant d tenant call.nodeIdHint, { call with phase := .bound certFp })
  | .bound certFp =>
      match answer.db, d.nodes.lookup call.nodeIdHint with
      | .ok (), some row => (d, { call with phase := .located certFp row.id })
      | .ok (), none => (d, { call with phase := .failed "db (node lookup): no rows" })
      | .error e, _ => (d, { call with phase := .failed s!"db (node lookup): {e}" })
  | .located certFp nodeRow =>
      match answer.db, d.nodeCerts.lookup certFp with
      | .ok (), none =>
          ({ d with
              nodeCerts := d.nodeCerts.insert certFp
                ⟨nodeRow, call.nowMs, call.nowMs + 90 * 24 * 3600 * 1000⟩ },
            { call with phase := .recorded certFp })
      | .ok (), some _ => (d, { call with phase := .failed "db (cert insert): UNIQUE constraint" })
      | .error e, _ => (d, { call with phase := .failed s!"db (cert insert): {e}" })
  | .recorded certFp =>
      match answer.db with
      | .error e => (d, { call with phase := .failed s!"db (token consume): {e}" })
      | .ok () =>
          (consumeToken d call.tokenHash call.nowMs certFp, { call with phase := .finished })
  | .finished => (d, call)
  | .failed _ => (d, call)

/-! ## All calls -/

/-- A call of `revoke_pending` whose update ran: the token, and whether it was revoked. -/
structure RevokeCall where
  tokenHash : TokenHash
  revoked : Bool
  returned : Bool

/-- The tables and the calls under way, by identifiers. -/
structure EnrollState where
  db : EnrollDb
  calls : Table ℕ EnrollCall
  revokes : Table ℕ RevokeCall

/-- A step of some call. -/
inductive EnrollEvent where
  | issue (tokenHash : TokenHash) (nodeIdHint : String) (ttlSeconds nowMs : ℕ)
      (tenant : Option String)
  | arrive (id : ℕ) (tokenHash : TokenHash) (csrPem : Bytes) (nodeIdHint : String) (nowMs : ℕ)
  | proceed (id : ℕ) (answer : StepAnswer)
  | revoke (id : ℕ) (tokenHash : TokenHash) (nowMs : ℕ)
  | revokeReturn (id : ℕ)

/-- One step. An event that no call is waiting for does nothing.
Source: `enrollment/mod.rs` -/
def enrollStep (s : EnrollState) : EnrollEvent → EnrollState
  | .issue tokenHash nodeIdHint ttlSeconds nowMs tenant =>
      { s with db := issuePendingToken s.db tokenHash nodeIdHint ttlSeconds nowMs tenant }
  | .arrive id tokenHash csrPem nodeIdHint nowMs =>
      match s.calls.lookup id with
      | some _ => s
      | none =>
          { s with
            calls := s.calls.insert id ⟨tokenHash, csrPem, nodeIdHint, nowMs, none, .arrived⟩ }
  | .proceed id answer =>
      match s.calls.lookup id with
      | none => s
      | some call =>
          { s with
            db := (stepCall fingerprintFromPem s.db answer call).1
            calls := s.calls.insert id (stepCall fingerprintFromPem s.db answer call).2 }
  | .revoke id tokenHash nowMs =>
      match s.revokes.lookup id with
      | some _ => s
      | none =>
          { s with
            db := (revokePending s.db tokenHash nowMs).2
            revokes := s.revokes.insert id ⟨tokenHash, (revokePending s.db tokenHash nowMs).1, false⟩ }
  | .revokeReturn id =>
      match s.revokes.lookup id with
      | some call => { s with revokes := s.revokes.insert id { call with returned := true } }
      | none => s

/-- Tables as they are, and no call under way. -/
def noCalls (d : EnrollDb) : EnrollState := ⟨d, ∅, ∅⟩

end

end DiskArcana.Enrollment
