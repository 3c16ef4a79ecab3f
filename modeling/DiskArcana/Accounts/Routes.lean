import Mathlib.Data.List.AList
import DiskArcana.Accounts.SignedTokens

/-!
# Signup, OAuth login, organizations and vaults

The control database behind `/auth`, `/orgs` and the vault-scoped routes: accounts, organizations with
their members, registered vaults with their collaborators, and the plan tiers of tenants. A tenant is
no table of its own, only a text in the rows of the others.
-/

namespace DiskArcana.Accounts

open DiskArcana.Lib DiskArcana.Lib.Text

/-! ## The database -/

/-- Source: `disk-core/src/billing/tier.rs`, `PlanTier` -/
inductive PlanTier where
  | free
  | pro
  | team
  deriving DecidableEq, Repr

/-- Source: `meta_db/orgs.rs`, `OrgRole` -/
inductive OrgRole where
  | owner
  | admin
  | member
  deriving DecidableEq, Repr

/-- Source: `meta_db/orgs.rs`, `OrganizationRow` -/
structure OrganizationRow where
  id : Text
  slug : Text
  name : Text
  tenantId : Text
  createdBy : Text
  deriving DecidableEq

/-- Source: `meta_db/orgs.rs`, `OrgMemberRow` -/
structure OrgMemberRow where
  orgId : Text
  userId : Text
  role : OrgRole
  deriving DecidableEq

/-- Source: `meta_db/sharing.rs`, `VaultShareRole` -/
inductive VaultShareRole where
  | viewer
  | editor
  deriving DecidableEq, Repr

/-- Source: `meta_db/sharing.rs`, `VaultMemberRow` -/
structure VaultMemberRow where
  tenantId : Option Text
  vaultId : Text
  userId : Text
  role : VaultShareRole
  deriving DecidableEq

/-- The tables of the control database. -/
structure Database where
  users : UserTable
  orgs : List OrganizationRow
  members : List OrgMemberRow
  vaults : List (Option Text × Text)
  vaultMembers : List VaultMemberRow
  tiers : AList fun _ : Option Text => PlanTier

/-- A database with plan tiers and nothing else in it. -/
def Database.start (tiers : AList fun _ : Option Text => PlanTier) : Database :=
  ⟨.empty, [], [], [], [], tiers⟩

namespace Database

variable (s : Database)

/-- Upsert plan tier for a tenant.
Source: `meta_db/billing.rs`, `set_plan_tier` -/
def setPlanTier (tenantId : Option Text) (tier : PlanTier) : Database :=
  { s with tiers := s.tiers.insert tenantId tier }

/-- Slugs compare without regard to the case of ASCII letters.
Source: `meta_db/orgs.rs`, `organization_slug_taken` -/
def organizationSlugTaken (slug : Text) : Bool :=
  s.orgs.any fun o => toAsciiLowercase o.slug = toAsciiLowercase slug

/-- The row of an organization, unless its id, slug or tenant is taken or the database fails.
Source: `meta_db/orgs.rs`, `create_organization`; `022_organizations.sql` -/
def createOrganization (o : OrganizationRow) (create : Bool) : Option Database :=
  if create ∧ o.id ∉ s.orgs.map OrganizationRow.id ∧ ¬ s.organizationSlugTaken o.slug ∧
      o.tenantId ∉ s.orgs.map OrganizationRow.tenantId then
    some { s with orgs := s.orgs ++ [o] }
  else none

/-- Source: `meta_db/orgs.rs`, `add_organization_member` -/
def addOrganizationMember (m : OrgMemberRow) (add : Bool) : Option Database :=
  if add ∧ (m.orgId, m.userId) ∉ s.members.map fun r => (r.orgId, r.userId) then
    some { s with members := s.members ++ [m] }
  else none

/-- One proof for whatever compares the keys of vaults. -/
instance : LawfulBEq (Option Text × Text) := inferInstance

/-- Idempotently register a vault after a successful upload. Rows without a tenant are never equal to
SQL, but a second one changes no lookup.
Source: `meta_db/billing.rs`, `register_tenant_vault` -/
def registerTenantVault (tenantId : Option Text) (vaultId : Text) : Database :=
  if (tenantId, vaultId) ∈ s.vaults then s else { s with vaults := s.vaults ++ [(tenantId, vaultId)] }

theorem registerTenantVault_eq (tenantId : Option Text) (vaultId : Text) :
    s.registerTenantVault tenantId vaultId =
      { s with vaults := (s.registerTenantVault tenantId vaultId).vaults } := by
  unfold registerTenantVault
  split
  · rfl
  · rfl

theorem mem_registerTenantVault {tenantId : Option Text} {vaultId : Text} {x : Option Text × Text} :
    x ∈ (s.registerTenantVault tenantId vaultId).vaults ↔ x ∈ s.vaults ∨ x = (tenantId, vaultId) := by
  unfold registerTenantVault
  split
  · rename_i hmem
    constructor
    · exact .inl
    · rintro (h | rfl)
      · exact h
      · exact hmem
  · simp

/-- Source: `meta_db/sharing.rs`, `vault_exists_for_tenant` -/
def vaultExistsForTenant (tenantId : Option Text) (vaultId : Text) : Bool :=
  (tenantId, vaultId) ∈ s.vaults

/-- Source: `meta_db/sharing.rs`, `get_collaborator_vault_access` -/
def getCollaboratorVaultAccess (userId vaultId : Text) : Option (Option Text × VaultShareRole) :=
  (s.vaultMembers.find? fun m => m.userId = userId ∧ m.vaultId = vaultId).map fun m =>
    (m.tenantId, m.role)

end Database

/-! ## Creating accounts -/

/-- Which queries of a request the database answers. -/
structure AccountHealth where
  lookup : Bool
  create : Bool
  retry : Bool
  tier : Bool
  deriving DecidableEq

/-- Why an account was not inserted. -/
inductive InsertError where
  | unique
  | failed
  deriving DecidableEq

/-- Source: `meta_db/accounts.rs`, `create_user_account` and `create_oauth_user_account` -/
def Database.createUserAccount (s : Database) (u : UserAccount) (create : Bool) :
    Except InsertError Database :=
  if create then
    match s.users.insert u with
    | none => .error .unique
    | some users => .ok { s with users := users }
  else .error .failed

/-- Bootstrap free-tier billing row for the new tenant. A failure is ignored. -/
def Database.bootstrapTier (s : Database) (tenantId : Text) (tier : Bool) : Database :=
  if tier then s.setPlanTier (some tenantId) .free else s

section

variable (s : Database) (tenantId : Text) (tier : Bool)

@[simp] theorem Database.bootstrapTier_users : (s.bootstrapTier tenantId tier).users = s.users := by
  cases tier <;> rfl

@[simp] theorem Database.bootstrapTier_orgs : (s.bootstrapTier tenantId tier).orgs = s.orgs := by
  cases tier <;> rfl

@[simp] theorem Database.bootstrapTier_members :
    (s.bootstrapTier tenantId tier).members = s.members := by
  cases tier <;> rfl

@[simp] theorem Database.bootstrapTier_vaults :
    (s.bootstrapTier tenantId tier).vaults = s.vaults := by
  cases tier <;> rfl

end

/-- Source: `accounts/routes.rs`, `SignupRequest` -/
structure SignupRequest where
  email : Text
  password : Text
  tenantId : Option Text
  deriving DecidableEq

/-- What signing up draws: the id, the salted hash unless hashing fails, and the nonce of the
verification token. -/
structure SignupDraw where
  userId : Text
  passwordHash : Option Text
  nonce : Nonce

/-- Source: `disk-core/src/accounts/password.rs`, `hash_password` -/
def hashPassword (password : Text) (hash : Option Text) : Option Text :=
  if (utf8 password).length < 8 then none else hash

/-- The tenant of a new account: the requested one, or one made from the address.
Source: `accounts/routes.rs`, `signup_inner` -/
def signupTenant (body : SignupRequest) (email : Text) : Answer Text :=
  match body.tenantId with
  | some raw =>
    match sanitizeTenantSlug raw with
    | none => .error (.badRequest, "invalid tenant_id")
    | some tenantId => .ok tenantId
  | none =>
    match defaultTenantFromEmail email with
    | none => .error (.badRequest, "could not derive tenant_id")
    | some tenantId => .ok tenantId

/-- The account that a signup is about to insert, when nothing is wrong with the request.
Source: `accounts/routes.rs`, `signup_inner` -/
def signupAccount (state : AuthHttpState) (body : SignupRequest) (draw : SignupDraw) :
    Answer UserAccount :=
  if state.jwt.mode.allowsLocalIssue then
    let email := normalizeEmail body.email
    if validateEmail email then
      match signupTenant body email with
      | .error e => .error e
      | .ok tenantId =>
        match hashPassword body.password draw.passwordHash with
        | none => .error (.badRequest, "password too short")
        | some passwordHash =>
          .ok { id := draw.userId, email := email, passwordHash := passwordHash, tenantId := tenantId
                emailVerified := false, oauthProvider := none, oauthSubject := none }
    else .error (.badRequest, "invalid email")
  else .error (.forbidden, "password signup disabled; use /auth/oauth/start")

section

variable (deps : Deps) (state : AuthHttpState)

/-- Source: `accounts/routes.rs`, `attach_verification` -/
def attachVerification (userId : Text) (nonce : Nonce) (now : ℤ) (resp : AuthTokenResponse) :
    AuthTokenResponse :=
  let delivery := deliverVerification deps state userId nonce now
  { resp with
    verificationToken := delivery.verificationToken, verificationUrl := delivery.verificationUrl }

/-- Source: `accounts/routes.rs`, `signup_inner` -/
def signupInner (s : Database) (body : SignupRequest) (draw : SignupDraw) (now : ℤ)
    (db : AccountHealth) : Answer AuthTokenResponse × Database :=
  match signupAccount state body draw with
  | .error e => (.error e, s)
  | .ok user =>
    match s.createUserAccount user db.create with
    | .error .unique => (.error (.conflict, "email already registered"), s)
    | .error .failed => (.error (.internalServerError, "database error"), s)
    | .ok s =>
      let resp :=
        match buildTokenResponse deps state user.id user.email user.tenantId false now.toNat with
        | .error e => .error e
        | .ok resp => .ok (attachVerification deps state user.id draw.nonce now resp)
      (resp, s.bootstrapTier user.tenantId db.tier)

/-! ## OAuth logins -/

/-- Source: `accounts/oauth.rs`, `OAuthIdentity` -/
structure OAuthIdentity where
  provider : Text
  subject : Text
  email : Text
  emailVerified : Bool
  deriving DecidableEq

/-- Source: `accounts/oauth.rs`, `OAuthExchange` and `OAuthSessionOutcome` -/
structure OAuthExchange where
  identity : OAuthIdentity
  accessToken : Option Text
  expiresIn : Option ℕ
  refreshToken : Option Text
  deriving DecidableEq

/-- Source: `accounts/routes.rs`, `build_external_token_response` -/
def buildExternalTokenResponse (accessToken : Text) (expiresIn : ℕ) (userId email tenantId : Text)
    (emailVerified : Bool) (refreshToken : Option Text) : AuthTokenResponse :=
  { accessToken := accessToken, tokenType := "Bearer", expiresIn := expiresIn
    user := { userId := userId, email := email, tenantId := tenantId
              emailVerified := emailVerified }
    refreshToken := refreshToken, verificationToken := none, verificationUrl := none }

/-- Source: `accounts/oauth.rs`, `finish_oauth_login` -/
def finishOauthLogin (userId email tenantId : Text) (emailVerified : Bool) (session : OAuthExchange)
    (now : ℤ) : Answer AuthTokenResponse :=
  match state.jwt.mode, session.accessToken with
  | .authArcana, some token =>
    .ok (buildExternalTokenResponse token (session.expiresIn.getD state.jwt.tokenTtlSecs) userId email
      tenantId emailVerified session.refreshToken)
  | _, _ => buildTokenResponse deps state userId email tenantId emailVerified now.toNat

/-- Source: `disk-core/src/accounts/mod.rs`, `OAUTH_PASSWORD_SENTINEL` -/
def oauthPasswordSentinel : Text := "!oauth:no-password!".toList

/-- The account that the first login of an identity inserts.
Source: `accounts/oauth.rs`, `login_or_create_oauth_user` -/
def oauthAccount (identity : OAuthIdentity) (tenantId userId : Text) : UserAccount :=
  { id := userId, email := identity.email, passwordHash := oauthPasswordSentinel
    tenantId := tenantId, emailVerified := identity.emailVerified
    oauthProvider := some identity.provider, oauthSubject := some identity.subject }

/-- The account that an identity is logged into: the one with its provider and subject, or a new one.
Source: `accounts/oauth.rs`, `login_or_create_oauth_user` -/
def selectOauthUser (s : Database) (identity : OAuthIdentity) (userId : Text) (db : AccountHealth) :
    Answer UserAccount × Database :=
  if validateEmail identity.email then
    if db.lookup then
      match s.users.getUserByOauth identity.provider identity.subject with
      | some user => (.ok user, s)
      | none =>
        match defaultTenantFromEmail identity.email with
        | none => (.error (.badRequest, "could not derive tenant_id"), s)
        | some tenantId =>
          let user := oauthAccount identity tenantId userId
          match s.createUserAccount user db.create with
          | .error .unique =>
            -- race or e-mail collision: try the lookup again
            if db.retry then
              match s.users.getUserByOauth identity.provider identity.subject with
              | some user => (.ok user, s)
              | none => (.error (.conflict, "email already registered"), s)
            else (.error (.internalServerError, "database error"), s)
          | .error .failed => (.error (.internalServerError, "database error"), s)
          | .ok s => (.ok user, s.bootstrapTier tenantId db.tier)
    else (.error (.internalServerError, "database error"), s)
  else (.error (.badRequest, "invalid email from oauth"), s)

/-- Every way to an account ends in the same answer about it.
Source: `accounts/oauth.rs`, `login_or_create_oauth_user` -/
def loginOrCreateOauthUser (s : Database) (exchange : OAuthExchange) (userId : Text) (now : ℤ)
    (db : AccountHealth) : Answer AuthTokenResponse × Database :=
  match selectOauthUser s exchange.identity userId db with
  | (.error e, s) => (.error e, s)
  | (.ok user, s) =>
    (finishOauthLogin deps state user.id user.email user.tenantId user.emailVerified exchange now, s)

theorem loginOrCreateOauthUser_snd (s : Database) (exchange : OAuthExchange) (userId : Text) (now : ℤ)
    (db : AccountHealth) :
    (loginOrCreateOauthUser deps state s exchange userId now db).2 =
      (selectOauthUser s exchange.identity userId db).2 := by
  unfold loginOrCreateOauthUser
  split
  · rename_i h
    rw [h]
  · rename_i h
    rw [h]

end

/-! ## Organizations and vaults -/

/-- Source: `orgs/routes.rs`, `CreateOrgRequest` -/
structure CreateOrgRequest where
  name : Text
  slug : Text
  deriving DecidableEq

/-- Source: `orgs/routes.rs`, `CreateOrgResponse` -/
structure CreateOrgResponse where
  orgId : Text
  slug : Text
  name : Text
  tenantId : Text
  role : OrgRole
  deriving DecidableEq

/-- Which queries of a request for a new organization the database answers. -/
structure OrgHealth where
  slugLookup : Bool
  create : Bool
  addMember : Bool
  deriving DecidableEq

/-- The organization that a request is about to insert, when nothing is wrong with it.
Source: `orgs/routes.rs`, `create_org` -/
def orgRow (s : Database) (user : UserAccount) (body : CreateOrgRequest) (orgId : Text)
    (slugLookup : Bool) : Answer OrganizationRow :=
  let name := trim body.name
  if name = [] ∨ 128 < (utf8 name).length then .error (.badRequest, "invalid name")
  else
    match sanitizeTenantSlug (trim body.slug) with
    | none => .error (.badRequest, "invalid slug")
    | some slug =>
      if !slugLookup || s.organizationSlugTaken slug then .error (.conflict, "slug taken")
      else .ok { id := orgId, slug := slug, name := name, tenantId := slug, createdBy := user.id }

/-- `POST /orgs` — create organization; caller becomes owner. The route after the bearer is resolved to
an account.
Source: `orgs/routes.rs`, `create_org` -/
def createOrg (s : Database) (user : UserAccount) (body : CreateOrgRequest) (orgId : Text)
    (db : OrgHealth) : Answer CreateOrgResponse × Database :=
  match orgRow s user body orgId db.slugLookup with
  | .error e => (.error e, s)
  | .ok o =>
    match s.createOrganization o db.create with
    | none => (.error (.internalServerError, "db error"), s)
    | some s =>
      match s.addOrganizationMember ⟨o.id, user.id, .owner⟩ db.addMember with
      | none => (.error (.internalServerError, "db error"), s)
      | some s => (.ok ⟨o.id, o.slug, o.name, o.tenantId, .owner⟩, s)

/-- Register vault usage after a successful upload (idempotent).
Source: `billing/enforcer.rs`, `record_vault_usage` -/
def recordVaultUsage (s : Database) (billingActive : Bool) (tenantHeader : Option Text) (share : Text)
    (db : Bool) : Database :=
  if billingActive ∧ db then s.registerTenantVault (tenantHeader.filter fun t => t ≠ []) share else s

/-- Source: `sharing/access.rs`, `VaultAccessKind` -/
inductive VaultAccessKind where
  | owner
  | editor
  | viewer
  deriving DecidableEq, Repr

/-- Source: `sharing/access.rs`, `ResolvedVaultAccess` -/
structure ResolvedVaultAccess where
  dataTenant : Option Text
  kind : VaultAccessKind
  deriving DecidableEq

/-- Resolve whether `user` may access `vaultId` and which tenant shard to query.
Source: `sharing/access.rs`, `resolve_vault_access` -/
def resolveVaultAccess (s : Database) (user : UserAccount) (vaultId : Text) (vaultQuery memberQuery : Bool) :
    Answer ResolvedVaultAccess :=
  if vaultQuery then
    if s.vaultExistsForTenant (some user.tenantId) vaultId then .ok ⟨some user.tenantId, .owner⟩
    else if memberQuery then
      match s.getCollaboratorVaultAccess user.id vaultId with
      | none => .error (.forbidden, "vault access denied")
      | some (ownerTenant, role) =>
        .ok ⟨ownerTenant, match role with | .editor => .editor | .viewer => .viewer⟩
    else .error (.internalServerError, "database error")
  else .error (.internalServerError, "database error")

end DiskArcana.Accounts
