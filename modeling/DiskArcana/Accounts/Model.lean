import Mathlib.Data.List.Nodup
import DiskArcana.Lib.Text

/-!
# User accounts

The `user_accounts` table with its keys, the shape checks on e-mail addresses and tenant slugs, the
configuration of the `/auth` routes and the answers they give. Texts are lists of characters.
-/

namespace DiskArcana.Accounts

open DiskArcana.Lib

abbrev Text := List Char

abbrev Bytes := List UInt8

/-- The bytes of a text. -/
def utf8 (t : Text) : Bytes := t.flatMap String.utf8EncodeChar

/-- The text of some bytes, if they are UTF-8. -/
def fromUtf8 (bytes : Bytes) : Option Text := bytes.toByteArray.utf8Decode?.map Array.toList

theorem fromUtf8_utf8 (t : Text) : fromUtf8 (utf8 t) = some t := by
  have hencode : (utf8 t).toByteArray = t.utf8Encode := rfl
  unfold fromUtf8
  rw [hencode, List.utf8Decode?_utf8Encode]
  rfl

/-! ## Answers -/

inductive StatusCode
  | badRequest | unauthorized | forbidden | notFound | conflict | internalServerError
  deriving DecidableEq, Repr

/-- A refusal: the status and the text of the `error` field. -/
abbrev Refusal := StatusCode × String

abbrev Answer (α : Type) := Except Refusal α

instance {α : Type} [DecidableEq α] : DecidableEq (Answer α)
  | .ok a, .ok b => if h : a = b then isTrue (by rw [h]) else isFalse fun hab => h (Except.ok.inj hab)
  | .error a, .error b =>
    if h : a = b then isTrue (by rw [h]) else isFalse fun hab => h (Except.error.inj hab)
  | .ok _, .error _ => isFalse nofun
  | .error _, .ok _ => isFalse nofun

/-! ## Modes and configuration -/

inductive JwtMode
  | local_ | authArcana | dual
  deriving DecidableEq, Repr

def JwtMode.allowsLocalIssue : JwtMode → Bool
  | .local_ | .dual => true
  | .authArcana => false

def JwtMode.allowsJwksVerify : JwtMode → Bool
  | .authArcana | .dual => true
  | .local_ => false

inductive OAuthMode
  | disabled | stub | authArcana
  deriving DecidableEq, Repr

def OAuthMode.isActive (m : OAuthMode) : Bool := m ≠ .disabled

inductive EmailVerifyMode
  | disabled | stub | log
  deriving DecidableEq, Repr

def EmailVerifyMode.isActive (m : EmailVerifyMode) : Bool := m ≠ .disabled

structure OAuthConfig where
  mode : OAuthMode
  issuer : Option Text
  clientId : Option Text
  redirectUri : Option Text
  publicBaseUrl : Option Text
  deriving DecidableEq

structure EmailVerifyConfig where
  mode : EmailVerifyMode
  publicBaseUrl : Option Text
  tokenTtlSecs : ℕ
  deriving DecidableEq

structure JwtConfig where
  mode : JwtMode
  localSigningKey : Bytes
  tokenTtlSecs : ℕ
  issuer : Text
  deriving DecidableEq

/-- The configuration of the routes. The database is a state of its own. -/
structure AuthHttpState where
  signingKey : Bytes
  jwt : JwtConfig
  oauth : OAuthConfig
  emailVerify : EmailVerifyConfig
  deriving DecidableEq

/-! ## Texts -/

/-- The white space of Unicode, which `trim` removes. -/
def isWhitespace (c : Char) : Bool :=
  let n := c.toNat
  (9 ≤ n ∧ n ≤ 13) || n = 0x20 || n = 0x85 || n = 0xA0 || n = 0x1680 || (0x2000 ≤ n ∧ n ≤ 0x200A) ||
    n = 0x2028 || n = 0x2029 || n = 0x202F || n = 0x205F || n = 0x3000

def trimEndMatches (p : Char → Bool) (t : Text) : Text := (t.reverse.dropWhile p).reverse

def trimMatches (p : Char → Bool) (t : Text) : Text := trimEndMatches p (t.dropWhile p)

def trim (t : Text) : Text := trimMatches isWhitespace t

/-- A text without white space is trimmed already. -/
theorem trim_eq_self {t : Text} (hspace : ∀ c ∈ t, isWhitespace c = false) : trim t = t := by
  have hdrop : ∀ l : Text, (∀ c ∈ l, isWhitespace c = false) → l.dropWhile isWhitespace = l := by
    rintro (_ | ⟨c, l⟩) hl
    · rfl
    · rw [List.dropWhile_cons, hl c List.mem_cons_self, if_neg Bool.false_ne_true]
  unfold trim trimMatches trimEndMatches
  rw [hdrop t hspace, hdrop t.reverse fun c hc => hspace c (List.mem_reverse.mp hc), List.reverse_reverse]

theorem isWhitespace_of_visible {c : Char} (hlo : 32 < c.toNat) (hhi : c.toNat < 128) :
    isWhitespace c = false := by
  simp only [isWhitespace]
  simp
  omega

/-- ASCII letters in lower case, other characters as they are. -/
def toAsciiLowercase (t : Text) : Text := t.map Char.toLower

/-- Normalize email for storage and lookup. -/
def normalizeEmail (email : Text) : Text := toAsciiLowercase (trim email)

/-- Basic email shape check (not full RFC validation). -/
def validateEmail (email : Text) : Bool :=
  match Text.splitOnce '@' (normalizeEmail email) with
  | none => false
  | some (localPart, domain) => localPart ≠ [] ∧ '.' ∈ domain ∧ domain.head? ≠ some '.'

/-- Sanitize tenant slug for storage. -/
def sanitizeTenantSlug (raw : Text) : Option Text :=
  let slug := raw.map fun c => if c.isAlphanum || c = '-' || c = '_' then c else '-'
  let slug := trimMatches (· = '-') slug
  if slug = [] ∨ 64 < slug.length then none else some slug

/-- Derive a default tenant slug from email local-part when omitted at signup. -/
def defaultTenantFromEmail (email : Text) : Option Text := do
  let (localPart, _) ← Text.splitOnce '@' (normalizeEmail email)
  sanitizeTenantSlug localPart

/-! ## Accounts -/

/-- Persisted SaaS user row. -/
structure UserAccount where
  id : Text
  email : Text
  passwordHash : Text
  tenantId : Text
  emailVerified : Bool
  oauthProvider : Option Text
  oauthSubject : Option Text
  deriving DecidableEq

/-- The pair that the partial unique index of OAuth identities is about. -/
def UserAccount.identity (u : UserAccount) : Option (Text × Text) :=
  u.oauthProvider.bind fun provider => u.oauthSubject.map fun subject => (provider, subject)

/-- The table, with the keys that its migrations declare. The column `email` compares without regard to
the case of ASCII letters. -/
structure UserTable where
  rows : List UserAccount
  ids : (rows.map UserAccount.id).Nodup
  emails : (rows.map fun u => toAsciiLowercase u.email).Nodup
  identities : (rows.filterMap UserAccount.identity).Nodup

namespace UserTable

def empty : UserTable := ⟨[], List.nodup_nil, List.nodup_nil, List.nodup_nil⟩

def getUserById (t : UserTable) (id : Text) : Option UserAccount := t.rows.find? fun u => u.id = id

def getUserByEmail (t : UserTable) (email : Text) : Option UserAccount :=
  t.rows.find? fun u => toAsciiLowercase u.email = toAsciiLowercase email

def getUserByOauth (t : UserTable) (provider subject : Text) : Option UserAccount :=
  t.rows.find? fun u => u.identity = some (provider, subject)

/-- A row clashes with the table: some key of it is taken. -/
def Clashes (t : UserTable) (u : UserAccount) : Prop :=
  u.id ∈ t.rows.map UserAccount.id ∨
    toAsciiLowercase u.email ∈ t.rows.map (fun v => toAsciiLowercase v.email) ∨
    ∃ i ∈ t.rows.filterMap UserAccount.identity, u.identity = some i

instance (t : UserTable) (u : UserAccount) : Decidable (t.Clashes u) := by
  unfold Clashes
  infer_instance

/-- A new row after the others. -/
def append (t : UserTable) (u : UserAccount) (h : ¬ t.Clashes u) : UserTable where
  rows := t.rows ++ [u]
  ids := by
    rw [List.map_append]
    exact t.ids.append (List.nodup_singleton _) fun a ha hb => by
      rw [List.mem_singleton.mp hb] at ha
      exact h (.inl ha)
  emails := by
    rw [List.map_append]
    exact t.emails.append (List.nodup_singleton _) fun a ha hb => by
      rw [List.mem_singleton.mp hb] at ha
      exact h (.inr (.inl ha))
  identities := by
    rw [List.filterMap_append]
    refine t.identities.append ?_ fun a ha hb => ?_
    · cases hu : u.identity <;> simp [hu]
    · exact h (.inr (.inr ⟨a, ha, by simpa using hb⟩))

/-- `INSERT INTO user_accounts`: `none` is a violated unique key. -/
def insert (t : UserTable) (u : UserAccount) : Option UserTable :=
  if h : t.Clashes u then none else some (t.append u h)

/-- Mark a user's email as verified (or unverified for tests). -/
def setEmailVerified (t : UserTable) (userId : Text) (verified : Bool) : UserTable where
  rows := t.rows.map fun u => if u.id = userId then { u with emailVerified := verified } else u
  ids := by
    have hsame : ∀ u : UserAccount,
        (if u.id = userId then { u with emailVerified := verified } else u).id = u.id := by
      intro u
      split <;> rfl
    simpa only [List.map_map, Function.comp_def, hsame] using t.ids
  emails := by
    have hsame : ∀ u : UserAccount,
        (if u.id = userId then { u with emailVerified := verified } else u).email = u.email := by
      intro u
      split <;> rfl
    simpa only [List.map_map, Function.comp_def, hsame] using t.emails
  identities := by
    have hsame : ∀ u : UserAccount, UserAccount.identity
        (if u.id = userId then { u with emailVerified := verified } else u) = u.identity := by
      intro u
      split <;> rfl
    simpa only [List.filterMap_map, Function.comp_def, hsame] using t.identities

/-- Rows with distinct keys are found by their keys. -/
theorem find?_key_eq_some {κ : Type} [DecidableEq κ] {key : UserAccount → Option κ}
    {rows : List UserAccount} (h : (rows.filterMap key).Nodup) (k : κ) (u : UserAccount) :
    rows.find? (fun v => key v = some k) = some u ↔ u ∈ rows ∧ key u = some k := by
  constructor
  · intro hfind
    exact ⟨List.mem_of_find?_eq_some hfind, by simpa using List.find?_some hfind⟩
  · rintro ⟨hmem, hkey⟩
    induction rows with
    | nil => cases hmem
    | cons v rest ih =>
        rcases List.mem_cons.mp hmem with rfl | hmem
        · simp [hkey]
        · rcases hv : key v with _ | k'
          · rw [List.filterMap_cons_none hv] at h
            rw [List.find?_cons_of_neg (by simp [hv])]
            exact ih h hmem
          · rw [List.filterMap_cons_some hv, List.nodup_cons] at h
            have hne : k' ≠ k := by
              rintro rfl
              exact h.1 (List.mem_filterMap.mpr ⟨u, hmem, hkey⟩)
            rw [List.find?_cons_of_neg (by simpa [hv] using hne)]
            exact ih h.2 hmem

variable {t t' : UserTable} {u : UserAccount}

theorem getUserById_eq_some {id : Text} :
    t.getUserById id = some u ↔ u ∈ t.rows ∧ u.id = id := by
  have hids : (t.rows.filterMap fun v => some v.id).Nodup := by
    simpa [List.filterMap_eq_map'] using t.ids
  simpa [getUserById] using find?_key_eq_some hids id u

theorem getUserByEmail_eq_some {email : Text} :
    t.getUserByEmail email = some u ↔
      u ∈ t.rows ∧ toAsciiLowercase u.email = toAsciiLowercase email := by
  have hemails : (t.rows.filterMap fun v => some (toAsciiLowercase v.email)).Nodup := by
    simpa [List.filterMap_eq_map'] using t.emails
  simpa [getUserByEmail] using find?_key_eq_some hemails (toAsciiLowercase email) u

theorem getUserByOauth_eq_some {provider subject : Text} :
    t.getUserByOauth provider subject = some u ↔
      u ∈ t.rows ∧ u.identity = some (provider, subject) :=
  find?_key_eq_some t.identities _ u

end UserTable

/-! ## Tokens and their answers -/

/-- The claims of a bearer token that the server issues itself. -/
structure DiskJwtClaims where
  sub : Text
  email : Text
  tenantId : Text
  emailVerified : Bool
  exp : ℕ
  iat : ℕ
  iss : Text
  deriving DecidableEq

structure UserProfile where
  userId : Text
  email : Text
  tenantId : Text
  emailVerified : Bool
  deriving DecidableEq

structure AuthTokenResponse where
  accessToken : Text
  tokenType : String
  expiresIn : ℕ
  user : UserProfile
  refreshToken : Option Text
  verificationToken : Option Text
  verificationUrl : Option Text
  deriving DecidableEq

/-- The libraries: the HMAC of a message under a key, the encoding of a bearer token under a key, and
the escaping of a text in a query string. -/
structure Deps where
  hmac : Bytes → Bytes → Bytes
  encodeJwt : Bytes → DiskJwtClaims → Option Text
  urlencode : Text → Text

variable (deps : Deps)

/-- Issue a bearer token for an authenticated user. -/
def issueToken (signingKey : Bytes) (userId email tenantId : Text) (emailVerified : Bool)
    (ttlSecs now : ℕ) : Option Text :=
  if signingKey.length < 32 then none
  else
    deps.encodeJwt signingKey
      { sub := userId, email := email, tenantId := tenantId, emailVerified := emailVerified
        iat := now, exp := (now + ttlSecs) % 2 ^ 64, iss := "disk-arcana".toList }

def JwtConfig.issueLocal (jwt : JwtConfig) (userId email tenantId : Text) (emailVerified : Bool)
    (now : ℕ) : Option Text :=
  if jwt.mode.allowsLocalIssue then
    issueToken deps jwt.localSigningKey userId email tenantId emailVerified jwt.tokenTtlSecs now
  else none

def buildTokenResponse (state : AuthHttpState) (userId email tenantId : Text) (emailVerified : Bool)
    (now : ℕ) : Answer AuthTokenResponse :=
  match state.jwt.issueLocal deps userId email tenantId emailVerified now with
  | none => .error (.internalServerError, "token issue failed")
  | some accessToken =>
    .ok { accessToken := accessToken, tokenType := "Bearer", expiresIn := state.jwt.tokenTtlSecs
          user := { userId := userId, email := email, tenantId := tenantId
                    emailVerified := emailVerified }
          refreshToken := none, verificationToken := none, verificationUrl := none }

/-- The answer names the user it was built for. -/
theorem user_of_buildTokenResponse {state : AuthHttpState} {userId email tenantId : Text}
    {emailVerified : Bool} {now : ℕ} {resp : AuthTokenResponse}
    (h : buildTokenResponse deps state userId email tenantId emailVerified now = .ok resp) :
    resp.user = ⟨userId, email, tenantId, emailVerified⟩ := by
  unfold buildTokenResponse at h
  split at h
  · exact nomatch h
  · cases h
    rfl

end DiskArcana.Accounts
