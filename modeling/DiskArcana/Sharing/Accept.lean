import DiskArcana.Lib.Table
import DiskArcana.Accounts.Routes

/-!
# Accepting vault invites

`POST /sharing/invites/accept` with the statements that it sends to the database: it looks the invite up by the
hash of its token, marks it redeemed, and writes the row of the new member. Each call takes one
statement at a time and may be overtaken by others in between, by the removal of a member and by the
registration of a vault. A statement that fails has no effect and ends its call.
-/

namespace DiskArcana.Sharing

open DiskArcana.Lib DiskArcana.Accounts

/-! ## Tables -/

/-- A row of `vault_invites` under its `id`.
Source: `meta_db/sharing.rs`, `VaultInviteRow`; `016_vault_sharing.sql` -/
structure VaultInviteRow where
  tenantId : Option Text
  vaultId : Text
  tokenHash : Bytes
  role : VaultShareRole
  createdBy : Text
  expiresAt : ℤ
  redeemedAt : Option ℤ
  redeemedBy : Option Text
  deriving DecidableEq

/-- An invite as it is read: its `id` and its row. -/
abbrev Invite := Text × VaultInviteRow

structure SharingDb where
  db : Database
  invites : Table Text VaultInviteRow

variable (s : SharingDb)

/-- Source: `meta_db/sharing.rs`, `get_vault_invite_by_token_hash` -/
def getVaultInviteByTokenHash (tokenHash : Bytes) : Option Invite :=
  (s.invites.entries.find? fun e => e.2.tokenHash = tokenHash).map fun e => (e.1, e.2)

/-- Source: `meta_db/sharing.rs`, `redeem_vault_invite` -/
def redeemVaultInvite (inviteId redeemedBy : Text) (now : ℤ) : SharingDb × Bool :=
  match s.invites.lookup inviteId with
  | none => (s, false)
  | some row =>
    if row.redeemedAt = none then
      let row := { row with redeemedAt := some now, redeemedBy := some redeemedBy }
      ({ s with invites := s.invites.insert inviteId row }, true)
    else (s, false)

/-- The primary key of `vault_members`. Keys without a tenant are never equal to SQL. -/
def memberClashes (m m' : VaultMemberRow) : Bool :=
  m.tenantId.isSome && (m.tenantId, m.vaultId, m.userId) = (m'.tenantId, m'.vaultId, m'.userId)

/-- Source: `meta_db/sharing.rs`, `upsert_vault_member` -/
def upsertVaultMember (m : VaultMemberRow) : SharingDb :=
  let members := s.db.vaultMembers
  let members :=
    if members.any (memberClashes m) then
      members.map fun m' => if memberClashes m m' then { m' with role := m.role } else m'
    else members ++ [m]
  { s with db := { s.db with vaultMembers := members } }

/-- Source: `meta_db/sharing.rs`, `remove_vault_member` -/
def removeVaultMember (tenantId : Option Text) (vaultId userId : Text) : SharingDb :=
  { s with db := { s.db with vaultMembers := s.db.vaultMembers.filter fun m =>
      ¬ (m.tenantId = tenantId ∧ m.vaultId = vaultId ∧ m.userId = userId) } }

def registerTenantVault (tenantId : Option Text) (vaultId : Text) : SharingDb :=
  { s with db := s.db.registerTenantVault tenantId vaultId }

/-! ## Calls -/

/-- A refusal: the status and the text of the `error` field. -/
abbrev Refusal := ℕ × String

structure AcceptInviteResponse where
  accepted : Bool
  vaultId : Text
  tenantId : Text
  role : Text
  message : Text
  deriving DecidableEq

/-- Source: `meta_db/sharing.rs`, `VaultShareRole::as_str` -/
def roleText : VaultShareRole → Text
  | .viewer => "viewer".toList
  | .editor => "editor".toList

def acceptResponse (invite : VaultInviteRow) : AcceptInviteResponse where
  accepted := true
  vaultId := invite.vaultId
  tenantId := invite.tenantId.getD "default".toList
  role := roleText invite.role
  message := "Joined vault ".toList ++ invite.vaultId ++ " as ".toList ++ roleText invite.role

/-- The row that an invite gives to a user. -/
def memberOf (invite : VaultInviteRow) (userId : Text) : VaultMemberRow :=
  ⟨invite.tenantId, invite.vaultId, userId, invite.role⟩

/-- The next statement of a call, or its answer. -/
inductive AcceptPhase where
  | lookUp (tokenHash : Bytes)
  | redeem (invite : Invite)
  | upsert (invite : Invite)
  | done (answer : Except Refusal AcceptInviteResponse)

/-- A call, on behalf of the user that its bearer token names. -/
structure Accept where
  user : UserAccount
  phase : AcceptPhase

/-- Libraries of the handler: `hex::decode` and `blake3::hash`. -/
structure TokenDeps where
  hexDecode : Text → Option Bytes
  hash : Bytes → Bytes

/-- What is checked before the first statement.
Source: `sharing/routes.rs`, `accept_invite_inner` -/
def acceptPhaseOf (deps : TokenDeps) (token : Text) : AcceptPhase :=
  match deps.hexDecode (trim token) with
  | none => .done (.error (400, "invalid token"))
  | some raw =>
    if raw.length ≠ 32 then .done (.error (400, "invalid token")) else .lookUp (deps.hash raw)

/-- The next statement, at a time. `ok` says that the database does not fail.
Source: `sharing/routes.rs`, `accept_invite_inner` -/
def acceptStep (user : UserAccount) (ok : Bool) (now : ℤ) : AcceptPhase → SharingDb × AcceptPhase
  | .lookUp tokenHash =>
    if ok then
      match getVaultInviteByTokenHash s tokenHash with
      | none => (s, .done (.error (404, "invite not found")))
      | some invite =>
        if invite.2.redeemedAt.isSome then (s, .done (.error (409, "invite already redeemed")))
        else if invite.2.expiresAt < now then (s, .done (.error (410, "invite expired")))
        else (s, .redeem invite)
    else (s, .done (.error (500, "database error")))
  | .redeem invite =>
    if ok then
      match redeemVaultInvite s invite.1 user.id now with
      | (s, true) => (s, .upsert invite)
      | (s, false) => (s, .done (.error (409, "invite already redeemed")))
    else (s, .done (.error (500, "database error")))
  | .upsert invite =>
    if ok then (upsertVaultMember s (memberOf invite.2 user.id), .done (.ok (acceptResponse invite.2)))
    else (s, .done (.error (500, "database error")))
  | .done answer => (s, .done answer)

/-! ## Runs -/

/-- The tables and the calls on them. -/
structure SharingState where
  tables : SharingDb
  calls : Table ℕ Accept

/-- Invites and accounts before the first call. -/
def SharingState.start (db : Database) (invites : Table Text VaultInviteRow) : SharingState :=
  ⟨⟨db, invites⟩, ∅⟩

inductive SharingEvent where
  | acceptInvite (id : ℕ) (user : UserAccount) (token : Text)
  | removeVaultMember (tenantId : Option Text) (vaultId userId : Text)
  | registerTenantVault (tenantId : Option Text) (vaultId : Text)
  /-- A call takes its next statement, at some time. -/
  | proceed (id : ℕ) (ok : Bool) (now : ℤ)

/-- A call that comes in under an identifier that is taken is not a call. -/
def sharingStep (deps : TokenDeps) (s : SharingState) : SharingEvent → SharingState
  | .acceptInvite id user token =>
    if (s.calls.lookup id).isSome then s
    else { s with calls := s.calls.insert id ⟨user, acceptPhaseOf deps token⟩ }
  | .removeVaultMember tenantId vaultId userId =>
    { s with tables := Sharing.removeVaultMember s.tables tenantId vaultId userId }
  | .registerTenantVault tenantId vaultId =>
    { s with tables := Sharing.registerTenantVault s.tables tenantId vaultId }
  | .proceed id ok now =>
    match s.calls.lookup id with
    | none => s
    | some call =>
      let (tables, phase) := acceptStep s.tables call.user ok now call.phase
      ⟨tables, s.calls.insert id { call with phase }⟩

end DiskArcana.Sharing
