import DiskArcana.Accounts.Tenants

/-!
# Bearers and logins

A bearer token of the identity provider is turned into an account by three lookups: the subject as the
id of an account, the subject as an identity of the provider, the e-mail address of the token. A login
with the same identity knows only the second, and refuses an address that is taken.

So the two agree exactly when neither of the other lookups decides, or only for the account that the
second one finds as well (`bearer_agrees_iff`).
-/

namespace DiskArcana.Accounts

open DiskArcana.Lib DiskArcana.Lib.Text

/-! ## Access tokens -/

/-- Normalized access-token claims used by `/auth/*` handlers.
Source: `accounts/jwt_service.rs`, `VerifiedAccess` -/
structure VerifiedAccess where
  sub : Text
  email : Option Text
  emailVerified : Bool
  tenantId : Option Text
  deriving DecidableEq

/-- Source: `accounts/jwt_service.rs`, `OidcAccessClaims` -/
structure OidcAccessClaims where
  sub : Text
  email : Option Text
  emailVerified : Option Bool
  tenantId : Option Text
  deriving DecidableEq

/-- The header of a token: the algorithm and the id of the key. -/
structure JwtHeader where
  alg : Text
  kid : Option Text
  deriving DecidableEq

/-- The token library and the cache of the provider's keys. `decode` checks the signature, the
expiration and the issuer; `decodeLocal` does so for the server's own tokens. -/
structure JwtDeps where
  decodeHeader : Text → Option JwtHeader
  decodingKey : Text → Option Bytes
  decode : Text → Bytes → Text → Text → Option OidcAccessClaims
  decodeLocal : Bytes → Text → Option DiskJwtClaims

section

variable (jwtDeps : JwtDeps) (jwt : JwtConfig)

/-- Source: `accounts/jwt_service.rs`, `verify_jwks` -/
def JwtConfig.verifyJwks (token : Text) : Option VerifiedAccess := do
  let header ← jwtDeps.decodeHeader token
  let kid ← header.kid
  let key ← jwtDeps.decodingKey kid
  let claims ← jwtDeps.decode token key header.alg jwt.issuer
  return { sub := claims.sub, email := claims.email, emailVerified := claims.emailVerified.getD false
           tenantId := claims.tenantId }

/-- Source: `accounts/jwt_service.rs`, `verify_local`; `disk-core/src/accounts/jwt.rs`, `verify_token` -/
def JwtConfig.verifyLocal (token : Text) : Option VerifiedAccess :=
  if jwt.localSigningKey.length < 32 then none
  else
    (jwtDeps.decodeLocal jwt.localSigningKey token).map fun claims =>
      { sub := claims.sub, email := some claims.email, emailVerified := claims.emailVerified
        tenantId := some claims.tenantId }

/-- Source: `accounts/jwt_service.rs`, `verify` -/
def JwtConfig.verify (token : Text) : Option VerifiedAccess :=
  if jwt.mode.allowsJwksVerify then
    match jwt.verifyJwks jwtDeps token with
    | some claims => some claims
    | none => if jwt.mode = .authArcana then none else jwt.verifyLocal jwtDeps token
  else jwt.verifyLocal jwtDeps token

/-- Source: `accounts/routes.rs`, `bearer_token` -/
def bearerToken (authorization : Option Text) : Option Text :=
  authorization.bind fun raw => (stripPrefix "Bearer ".toList raw).map trim

/-- Source: `accounts/routes.rs`, `verify_bearer` -/
def verifyBearer (authorization : Option Text) : Answer VerifiedAccess :=
  match bearerToken authorization with
  | none => .error (.unauthorized, "missing bearer token")
  | some token =>
    match jwt.verify jwtDeps token with
    | none => .error (.unauthorized, "invalid token")
    | some claims => .ok claims

end

/-! ## The account of a bearer -/

/-- Which of the three lookups the database answers. One that fails is passed over. -/
structure ResolveHealth where
  byId : Bool
  byOauth : Bool
  byEmail : Bool
  deriving DecidableEq

def authArcanaProvider : Text := "auth_arcana".toList

section

variable (users : UserTable) (db : ResolveHealth) (claims : VerifiedAccess)

def foundById : Option UserAccount := if db.byId then users.getUserById claims.sub else none

def foundByOauth : Option UserAccount :=
  if db.byOauth then users.getUserByOauth authArcanaProvider claims.sub else none

def foundByEmail : Option UserAccount :=
  if db.byEmail then claims.email.bind users.getUserByEmail else none

/-- Source: `accounts/routes.rs`, `resolve_user_from_access` -/
def resolveUserFromAccess : Answer UserAccount :=
  match foundById users db claims with
  | some user => .ok user
  | none =>
    match foundByOauth users db claims with
    | some user => .ok user
    | none =>
      match foundByEmail users db claims with
      | some user => .ok user
      | none => .error (.unauthorized, "user not found")

/-! ## Agreement -/

/-- A login of the same identity: the provider, the subject and the address of the token, which the
login normalizes. Where the token names no address, whatever well-formed one the provider gives. -/
structure SameIdentity (identity : OAuthIdentity) : Prop where
  provider : identity.provider = authArcanaProvider
  subject : identity.subject = claims.sub
  emailVerified : identity.emailVerified = claims.emailVerified
  email : ∀ e ∈ claims.email, identity.email = normalizeEmail e
  address : claims.email = none → validateEmail identity.email = true

/-- All queries are answered. -/
def AccountHealth.up : AccountHealth := ⟨true, true, true, true⟩

/-- The account of a bearer is the one that the same identity is logged into, and an address decides
only when the token claims it as verified. -/
structure Agrees (s : Database) : Prop where
  same : ∀ u, resolveUserFromAccess s.users db claims = .ok u → ∀ identity, SameIdentity claims identity →
    ∀ userId, (selectOauthUser s identity userId .up).1 = .ok u
  verified : ∀ u, foundById s.users db claims = none → foundByOauth s.users db claims = none →
    foundByEmail s.users db claims = some u → claims.emailVerified = true

/-- An account is the one of the subject at the provider. -/
def IsSubject (u : UserAccount) : Prop := u.identity = some (authArcanaProvider, claims.sub)

/-- The subject is the id of no account but its own; the address, when it decides, is verified and
that of the subject's account; and when an account is found, an address that is named has the shape of
one. -/
structure Unambiguous : Prop where
  id : ∀ u ∈ foundById users db claims, IsSubject claims u
  email : foundById users db claims = none → foundByOauth users db claims = none →
    ∀ u ∈ foundByEmail users db claims, IsSubject claims u ∧ claims.emailVerified = true
  address : (foundById users db claims ≠ none ∨ foundByOauth users db claims ≠ none ∨
    foundByEmail users db claims ≠ none) → ∀ e ∈ claims.email, validateEmail (normalizeEmail e) = true

end

section

variable {users : UserTable} {db : ResolveHealth} {claims : VerifiedAccess} {s : Database}
  {u : UserAccount}

/-- **The three lookups**, in order. -/
theorem resolveUserFromAccess_eq_ok :
    resolveUserFromAccess users db claims = .ok u ↔
      foundById users db claims = some u ∨
      (foundById users db claims = none ∧ foundByOauth users db claims = some u) ∨
      (foundById users db claims = none ∧ foundByOauth users db claims = none ∧
        foundByEmail users db claims = some u) := by
  unfold resolveUserFromAccess
  rcases foundById users db claims with _ | v
  · rcases foundByOauth users db claims with _ | v
    · rcases foundByEmail users db claims with _ | v
      · simp
      · simp
    · simp
  · simp

theorem mem_rows_of_foundById (h : foundById users db claims = some u) : u ∈ users.rows := by
  unfold foundById at h
  split at h
  · exact (UserTable.getUserById_eq_some.mp h).1
  · exact nomatch h

theorem isSubject_of_foundByOauth (h : foundByOauth users db claims = some u) :
    u ∈ users.rows ∧ IsSubject claims u := by
  unfold foundByOauth at h
  split at h
  · exact UserTable.getUserByOauth_eq_some.mp h
  · exact nomatch h

theorem mem_rows_of_foundByEmail (h : foundByEmail users db claims = some u) : u ∈ users.rows := by
  unfold foundByEmail at h
  split at h
  · obtain ⟨e, -, he⟩ := Option.bind_eq_some_iff.mp h
    exact (UserTable.getUserByEmail_eq_some.mp he).1
  · exact nomatch h

/-- The account of a bearer is in the table. -/
theorem mem_rows_of_resolve (h : resolveUserFromAccess users db claims = .ok u) : u ∈ users.rows := by
  rcases resolveUserFromAccess_eq_ok.mp h with h | ⟨-, h⟩ | ⟨-, -, h⟩
  · exact mem_rows_of_foundById h
  · exact (isSubject_of_foundByOauth h).1
  · exact mem_rows_of_foundByEmail h

/-- **When a login ends in an account of the table**: it is the one with the identity, and the address
has the shape of one. -/
theorem selectOauthUser_eq_ok {identity : OAuthIdentity} {userId : Text} (hu : u ∈ s.users.rows) :
    (selectOauthUser s identity userId .up).1 = .ok u ↔
      validateEmail identity.email = true ∧
        u.identity = some (identity.provider, identity.subject) := by
  unfold selectOauthUser AccountHealth.up
  by_cases hemail : validateEmail identity.email = true
  · rw [if_pos hemail, if_pos rfl]
    rcases hfound : s.users.getUserByOauth identity.provider identity.subject with _ | v
    · have hnot : u.identity ≠ some (identity.provider, identity.subject) := by
        intro hid
        exact nomatch hfound.symm.trans (UserTable.getUserByOauth_eq_some.mpr ⟨hu, hid⟩)
      constructor
      · intro h
        exfalso
        dsimp only at h
        split at h
        · exact nomatch h
        · rename_i tenantId htenant
          split at h
          · exact nomatch h
          · exact nomatch h
          · rename_i s' hcreate
            -- a new account has the identity
            cases h
            exact hnot rfl
      · rintro ⟨-, hid⟩
        exact absurd hid hnot
    · have hv := UserTable.getUserByOauth_eq_some.mp hfound
      constructor
      · intro h
        cases h
        exact ⟨hemail, hv.2⟩
      · rintro ⟨-, hid⟩
        have hsame := hfound.symm.trans (UserTable.getUserByOauth_eq_some.mpr ⟨hu, hid⟩)
        cases hsame
        rfl
  · rw [if_neg hemail]
    constructor
    · exact nofun
    · rintro ⟨h, -⟩
      exact absurd h hemail

/-- Every token has a login of the same identity. -/
theorem exists_sameIdentity (claims : VerifiedAccess) : ∃ identity, SameIdentity claims identity := by
  have haddress : validateEmail "a@b.c".toList = true := by decide +kernel
  rcases hemail : claims.email with _ | e
  · refine ⟨⟨authArcanaProvider, claims.sub, "a@b.c".toList, claims.emailVerified⟩, rfl, rfl, rfl, ?_,
      fun _ => haddress⟩
    rw [hemail]
    exact nofun
  · refine ⟨⟨authArcanaProvider, claims.sub, normalizeEmail e, claims.emailVerified⟩, rfl, rfl, rfl, ?_,
      fun hnone => nomatch hemail.symm.trans hnone⟩
    rw [hemail]
    rintro e' ⟨⟩
    rfl

/-- Some lookup finds an account exactly when the bearer is resolved to one. -/
theorem found_iff_resolve :
    (foundById users db claims ≠ none ∨ foundByOauth users db claims ≠ none ∨
      foundByEmail users db claims ≠ none) ↔ ∃ u, resolveUserFromAccess users db claims = .ok u := by
  simp only [resolveUserFromAccess_eq_ok]
  rcases foundById users db claims with _ | v
  · rcases foundByOauth users db claims with _ | v
    · rcases foundByEmail users db claims with _ | v
      · simp
      · simp
    · simp
  · simp

/-- **When bearers and logins agree.** -/
theorem agrees_iff : Agrees db claims s ↔ Unambiguous s.users db claims := by
  constructor
  · rintro ⟨hsame, hverified⟩
    obtain ⟨identity, hidentity⟩ := exists_sameIdentity claims
    have hlogin : ∀ u, resolveUserFromAccess s.users db claims = .ok u →
        validateEmail identity.email = true ∧ IsSubject claims u := by
      intro u hu
      have hok := (selectOauthUser_eq_ok (mem_rows_of_resolve hu)).mp (hsame u hu identity hidentity [])
      rw [hidentity.provider, hidentity.subject] at hok
      exact hok
    refine ⟨?_, ?_, ?_⟩
    · intro u hu
      exact (hlogin u (resolveUserFromAccess_eq_ok.mpr (.inl hu))).2
    · intro hid hoauth u hu
      exact ⟨(hlogin u (resolveUserFromAccess_eq_ok.mpr (.inr (.inr ⟨hid, hoauth, hu⟩)))).2,
        hverified u hid hoauth hu⟩
    · intro hfound e he
      obtain ⟨u, hu⟩ := found_iff_resolve.mp hfound
      have hvalid := (hlogin u hu).1
      rwa [hidentity.email e he] at hvalid
  · intro hunambiguous
    refine ⟨?_, ?_⟩
    · intro u hu identity hidentity userId
      refine (selectOauthUser_eq_ok (mem_rows_of_resolve hu)).mpr ⟨?_, ?_⟩
      · rcases hemail : claims.email with _ | e
        · exact hidentity.address hemail
        · rw [hidentity.email e hemail]
          exact hunambiguous.address (found_iff_resolve.mpr ⟨u, hu⟩) e hemail
      · rw [hidentity.provider, hidentity.subject]
        rcases resolveUserFromAccess_eq_ok.mp hu with h | ⟨-, h⟩ | ⟨hid, hoauth, h⟩
        · exact hunambiguous.id u h
        · exact (isSubject_of_foundByOauth h).2
        · exact (hunambiguous.email hid hoauth u h).1
    · intro u hid hoauth hu
      exact (hunambiguous.email hid hoauth u hu).2

end

/-- **Bearer requests and logins agree on identity** exactly when the three lookups do: for every
database and every token that is accepted with the provider's keys. -/
theorem bearer_agrees_iff (jwtDeps : JwtDeps) (jwt : JwtConfig) (authorization token : Text)
    (claims : VerifiedAccess) (s : Database) (db : ResolveHealth)
    (hbearer : bearerToken (some authorization) = some token)
    (hmode : jwt.mode.allowsJwksVerify = true) (hjwks : jwt.verifyJwks jwtDeps token = some claims) :
    verifyBearer jwtDeps jwt (some authorization) = .ok claims ∧
      (Agrees db claims s ↔ Unambiguous s.users db claims) := by
  refine ⟨?_, agrees_iff⟩
  have hverify : jwt.verify jwtDeps token = some claims := by
    unfold JwtConfig.verify
    rw [if_pos hmode, hjwks]
  unfold verifyBearer
  rw [hbearer]
  dsimp only
  rw [hverify]

/-! ### An address that nobody verified -/

/-- A table with one account. -/
def oneUser (u : UserAccount) : Database :=
  { Database.start ∅ with users := UserTable.empty.append u (by simp [UserTable.Clashes, UserTable.empty]) }

/-- Alice, with a password. -/
def alice : UserAccount :=
  ⟨"usr_1".toList, "alice@x.org".toList, "$argon2id$".toList, "alice".toList, true, none, none⟩

/-- A token library that knows the claims of one token. -/
def jwtFor (claims : OidcAccessClaims) : JwtDeps where
  decodeHeader _ := some ⟨"EdDSA".toList, some "kid".toList⟩
  decodingKey _ := some []
  decode token _ _ _ := if token = "token".toList then some claims else none
  decodeLocal _ _ := none

/-- A token with the subject of a stranger and Alice's address, not verified, is taken for Alice's
account; the login of the same identity is refused. -/
theorem not_agrees_of_unverified :
    ¬ ∀ (jwtDeps : JwtDeps) (jwt : JwtConfig) (token : Text) (claims : VerifiedAccess) (s : Database)
      (db : ResolveHealth), jwt.mode.allowsJwksVerify = true →
        jwt.verifyJwks jwtDeps token = some claims → Agrees db claims s := by
  intro h
  have hagrees := h (jwtFor ⟨"stranger".toList, some "alice@x.org".toList, none, none⟩)
    ⟨.authArcana, [], 3600, "https://auth".toList⟩ "token".toList
    ⟨"stranger".toList, some "alice@x.org".toList, false, none⟩ (oneUser alice) ⟨true, true, true⟩ rfl
    (by decide)
  exact nomatch hagrees.verified alice (by decide) (by decide) (by decide)

/-- The same token for an account of that subject. -/
theorem agrees_of_subject :
    let claims : VerifiedAccess := ⟨"stranger".toList, some "alice@x.org".toList, false, none⟩
    let u := { alice with oauthProvider := some authArcanaProvider, oauthSubject := some claims.sub }
    Agrees ⟨true, true, true⟩ claims (oneUser u) := by
  intro claims u
  refine (bearer_agrees_iff (jwtFor ⟨"stranger".toList, some "alice@x.org".toList, none, none⟩)
    ⟨.authArcana, [], 3600, "https://auth".toList⟩ "Bearer token".toList "token".toList claims
    (oneUser u) ⟨true, true, true⟩ (by decide) rfl (by decide)).2.mpr ⟨?_, ?_, ?_⟩
  · have hid : foundById (oneUser u).users ⟨true, true, true⟩ claims = none := by decide
    rw [hid]
    exact nofun
  · intro _ hoauth
    exact absurd hoauth (by decide)
  · rintro - e ⟨⟩
    decide +kernel

end DiskArcana.Accounts
