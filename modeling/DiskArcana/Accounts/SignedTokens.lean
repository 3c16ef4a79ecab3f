import DiskArcana.Lib.Base64
import DiskArcana.Lib.Trace
import DiskArcana.Accounts.Model

/-!
# OAuth states and verification tokens

Both are a payload, a dot and the HMAC of the payload under one key. The payload of an OAuth state is
`provider:nonce:exp`, with the redirect in base64 after it in the browser flow; that of a verification
token is `ev:user:nonce:exp`. A state is cut at colons from the left, a token from the right, and the
provider is whatever the caller of `/auth/oauth/start` sends.

So a provider that starts with `ev:` gives a state that reads as a verification token
(`readVerification_statePayload`), and a provider with a colon in it gives a state that does not read
as itself (`readState_statePayload`). Without colons in providers the two kinds are apart, but for
nonces and expirations that happen to spell a state (`signedTokens_separated`).
-/

namespace DiskArcana.Accounts

open DiskArcana.Lib DiskArcana.Lib.Text DiskArcana.Lib.Trace

/-! ## Signing -/

/-- Sixteen random bytes. -/
structure Nonce where
  bytes : Bytes
  size : bytes.length = 16

/-- 64-bit signed arithmetic wraps. -/
def toI64 (n : ℤ) : ℤ := n.bmod (2 ^ 64)

section

variable (deps : Deps) (signingKey : Bytes)

/-- The signature of a payload. The HMAC takes keys of every length, so signing does not fail. -/
def signToken (payload : Text) : Text := hex (deps.hmac signingKey (utf8 payload))

/-- The same function under the name it has beside the OAuth states. -/
def signState (payload : Text) : Text := signToken deps signingKey payload

/-- A payload with its signature. -/
def signed (payload : Text) : Text := payload ++ '.' :: signToken deps signingKey payload

/-- The payload of a text whose signature is right, else a refusal. -/
def openSigned (msg : String) (token : Text) : Answer Text :=
  match rsplitOnce '.' token with
  | none => .error (.badRequest, msg)
  | some (payload, sig) =>
    if signToken deps signingKey payload = sig then .ok payload else .error (.badRequest, msg)

/-! ## OAuth states -/

structure OAuthStartQuery where
  provider : Option Text
  flow : Option Text
  redirectUri : Option Text
  deriving DecidableEq

def validateBrowserRedirect (uri : Text) : Answer Unit :=
  if "https://".toList <+: uri ∨ "http://127.0.0.1".toList <+: uri ∨ "http://localhost".toList <+: uri
  then .ok ()
  else .error (.badRequest, "invalid redirect_uri")

def browserRedirectFromQuery (query : OAuthStartQuery) : Answer (Option Text) :=
  if query.flow.getD [] ≠ "browser".toList then
    if query.redirectUri.isSome then .error (.badRequest, "redirect_uri requires flow=browser")
    else .ok none
  else
    match query.redirectUri with
    | none => .error (.badRequest, "flow=browser requires redirect_uri")
    | some redirect => do
      validateBrowserRedirect redirect
      return some redirect

/-- What is signed in an OAuth state. -/
def statePayload (provider : Text) (browserRedirect : Option Text) (nonce : Nonce) (exp : ℤ) : Text :=
  match browserRedirect with
  | none => provider ++ ':' :: (hex nonce.bytes ++ ':' :: showInt exp)
  | some redirect =>
    provider ++ ':' :: (hex nonce.bytes ++ ':' :: (showInt exp ++ ':' :: Base64.encode (utf8 redirect)))

/-- Ten minutes. -/
def stateExp (now : ℤ) : ℤ := toI64 (now + 600)

def issueOauthState (provider : Text) (browserRedirect : Option Text) (nonce : Nonce) (now : ℤ) : Text :=
  signed deps signingKey (statePayload provider browserRedirect nonce (stateExp now))

/-- The redirect that follows the expiration, if there is one. -/
def readRedirect : List Text → Answer (Option Text)
  | [] => .ok none
  | enc :: _ =>
    match (Base64.decode enc).bind fromUtf8 with
    | none => .error (.badRequest, "invalid state")
    | some redirect => .ok (some redirect)

/-- What an OAuth state says, once its signature is found right: the redirect. -/
def readState (now : ℤ) (payload : Text) : Answer (Option Text) :=
  match splitN ':' 4 payload with
  | _provider :: _nonce :: expStr :: rest =>
    match parseI64 expStr with
    | none => .error (.badRequest, "invalid state")
    | some exp =>
      if exp < now then .error (.badRequest, "state expired") else readRedirect rest
  | _ => .error (.badRequest, "invalid state")

def verifyOauthState (now : ℤ) (state : Text) : Answer (Option Text) := do
  let payload ← openSigned deps signingKey "invalid state" state
  readState now payload

/-! ## Verification tokens -/

/-- What is signed in a verification token. -/
def verificationPayload (userId : Text) (nonce : Nonce) (exp : ℤ) : Text :=
  "ev:".toList ++ userId ++ ':' :: (hex nonce.bytes ++ ':' :: showInt exp)

def verificationExp (ttlSecs : ℕ) (now : ℤ) : ℤ := toI64 (now + toI64 ttlSecs)

def issueVerificationToken (userId : Text) (ttlSecs : ℕ) (nonce : Nonce) (now : ℤ) : Text :=
  signed deps signingKey (verificationPayload userId nonce (verificationExp ttlSecs now))

/-- What a verification token says, once its signature is found right: the user. -/
def readVerification (now : ℤ) (payload : Text) : Answer Text :=
  match stripPrefix "ev:".toList payload with
  | none => .error (.badRequest, "invalid token")
  | some rest =>
    match rsplitOnce ':' rest with
    | none => .error (.badRequest, "invalid token")
    | some (userAndNonce, expStr) =>
      match parseI64 expStr with
      | none => .error (.badRequest, "invalid token")
      | some exp =>
        if exp < now then .error (.badRequest, "token expired")
        else
          match rsplitOnce ':' userAndNonce with
          | none => .error (.badRequest, "invalid token")
          | some (userId, _nonce) => .ok userId

def verifyVerificationToken (now : ℤ) (token : Text) : Answer Text := do
  let payload ← openSigned deps signingKey "invalid token" token
  readVerification now payload

end

/-! ## The routes -/

section

variable (deps : Deps) (state : AuthHttpState)

structure OAuthStartResponse where
  authorizationUrl : Text
  state : Text
  deriving DecidableEq

/-- What `/auth/oauth/start` draws: the nonce, and the subjects of the stub code. -/
structure StartDraw where
  nonce : Nonce
  subject : Bytes
  subject' : Bytes

def encodeStubCode (provider subject email : Text) : Text :=
  Base64.encode (utf8 ("stub.v1|".toList ++ provider ++ '|' :: subject ++ '|' :: email))

def stubCode (provider : Text) (subject : Bytes) : Text :=
  let subject := "stub-".toList ++ hex subject
  encodeStubCode provider subject (subject ++ "@stub.oauth.local".toList)

def buildStubAuthorizationUrl (provider oauthState : Text) (browserRedirect : Option Text)
    (draw : StartDraw) : Answer Text :=
  match browserRedirect with
  | some redirectBase =>
    .ok (redirectBase ++ "?code=".toList ++ deps.urlencode (stubCode provider draw.subject) ++
      "&state=".toList ++ deps.urlencode oauthState)
  | none =>
    match state.oauth.publicBaseUrl.or state.oauth.redirectUri with
    | none => .error (.internalServerError, "oauth base url not configured")
    | some base =>
      .ok (base ++ "/auth/oauth/callback?code=".toList ++
        deps.urlencode (stubCode provider draw.subject') ++ "&state=".toList ++
        deps.urlencode oauthState)

def buildAuthArcanaAuthorizationUrl (oauthState : Text) (browserRedirect : Option Text) :
    Answer Text :=
  match state.oauth.issuer with
  | none => .error (.internalServerError, "oauth issuer not configured")
  | some issuer =>
    match state.oauth.clientId with
    | none => .error (.internalServerError, "oauth client_id not configured")
    | some clientId =>
      match browserRedirect.or state.oauth.redirectUri with
      | none => .error (.internalServerError, "oauth redirect_uri not configured")
      | some redirectUri =>
        .ok (trimEndMatches (· = '/') issuer ++ "/authorize?response_type=code&client_id=".toList ++
          deps.urlencode clientId ++ "&redirect_uri=".toList ++ deps.urlencode redirectUri ++
          "&scope=openid%20email&state=".toList ++ deps.urlencode oauthState)

def buildAuthorizationUrl (provider oauthState : Text) (browserRedirect : Option Text)
    (draw : StartDraw) : Answer Text :=
  match state.oauth.mode with
  | .stub => buildStubAuthorizationUrl deps state provider oauthState browserRedirect draw
  | .authArcana => buildAuthArcanaAuthorizationUrl deps state oauthState browserRedirect
  | .disabled => .error (.notFound, "oauth disabled")

def providerOf (query : OAuthStartQuery) : Text := query.provider.getD "auth_arcana".toList

def oauthStartInner (query : OAuthStartQuery) (draw : StartDraw) (now : ℤ) :
    Answer OAuthStartResponse := do
  if !state.oauth.mode.isActive then throw (.notFound, "oauth disabled")
  let browserRedirect ← browserRedirectFromQuery query
  let provider := providerOf query
  let oauthState := issueOauthState deps state.signingKey provider browserRedirect draw.nonce now
  let authorizationUrl ←
    buildAuthorizationUrl deps state provider oauthState browserRedirect draw
  return { authorizationUrl := authorizationUrl, state := oauthState }

structure VerificationDelivery where
  verificationToken : Option Text
  verificationUrl : Option Text
  deriving DecidableEq

def buildVerificationUrl (token : Text) : Option Text :=
  ((state.emailVerify.publicBaseUrl.map trim).filter fun s => s ≠ []).map fun b =>
    trimEndMatches (· = '/') b ++ "/auth/verify-email?token=".toList ++ deps.urlencode token

/-- Issue verification delivery for a newly registered password user. In the mode `log` the link, or
the token, goes to the log of the server. -/
def deliverVerification (userId : Text) (nonce : Nonce) (now : ℤ) : VerificationDelivery :=
  if state.emailVerify.mode.isActive then
    let token := issueVerificationToken deps state.signingKey userId state.emailVerify.tokenTtlSecs
      nonce now
    match state.emailVerify.mode with
    | .stub => ⟨some token, buildVerificationUrl deps state token⟩
    | .log | .disabled => ⟨none, none⟩
  else ⟨none, none⟩

/-- Whether the database answers the lookup and the update of one request. -/
structure DbHealth where
  lookup : Bool
  update : Bool
  deriving DecidableEq

def verifyEmailInner (users : UserTable) (token : Text) (now : ℤ) (db : DbHealth) :
    Answer AuthTokenResponse × UserTable :=
  if state.emailVerify.mode.isActive then
    match verifyVerificationToken deps state.signingKey now token with
    | .error e => (.error e, users)
    | .ok userId =>
      if db.lookup then
        match users.getUserById userId with
        | none => (.error (.badRequest, "invalid token"), users)
        | some user =>
          let resp := buildTokenResponse deps state user.id user.email user.tenantId true now.toNat
          if user.emailVerified then (resp, users)
          else if db.update then (resp, users.setEmailVerified user.id true)
          else (.error (.internalServerError, "database error"), users)
      else (.error (.internalServerError, "database error"), users)
  else (.error (.notFound, "email verification disabled"), users)

end

/-! ## What the texts hold -/

theorem colon_notMem_hex (bytes : Bytes) : ':' ∉ hex bytes :=
  notMem_hex (by decide) bytes

theorem colon_notMem_showInt (n : ℤ) : ':' ∉ showInt n :=
  notMem_showInt (by decide) (by decide) n

theorem colon_notMem_encode (bytes : Bytes) : ':' ∉ Base64.encode bytes :=
  Base64.notMem_encode (by decide) bytes

theorem parseI64_showInt_toI64 (n : ℤ) : parseI64 (showInt (toI64 n)) = some (toI64 n) := by
  have hlo := Int.le_bmod (x := n) (m := 2 ^ 64) (by decide)
  have hhi := Int.bmod_lt (x := n) (m := 2 ^ 64) (by decide)
  unfold toI64
  exact parseI64_showInt (by omega) (by omega)

section

variable {deps : Deps} {signingKey : Bytes} {msg : String} {token payload : Text} {now : ℤ}

/-- A text opens exactly when it is a payload with its signature. -/
theorem openSigned_eq_ok :
    openSigned deps signingKey msg token = .ok payload ↔ token = signed deps signingKey payload := by
  have hdot : ∀ p, '.' ∉ signToken deps signingKey p := fun p => notMem_hex (by decide) _
  unfold openSigned signed
  constructor
  · intro h
    split at h
    · exact nomatch h
    · rename_i payload' sig hcut
      split_ifs at h with hsig
      cases h
      rw [hsig]
      exact (rsplitOnce_eq_some.mp hcut).1
  · rintro rfl
    rw [rsplitOnce_append (hdot payload)]
    dsimp only
    rw [if_pos rfl]

theorem signed_injective {payload' : Text}
    (h : signed deps signingKey payload = signed deps signingKey payload') : payload = payload' := by
  have hopen : openSigned deps signingKey "" (signed deps signingKey payload) = .ok payload' :=
    openSigned_eq_ok.mpr h
  rw [openSigned_eq_ok.mpr rfl] at hopen
  exact Except.ok.inj hopen

@[simp] theorem verifyOauthState_signed :
    verifyOauthState deps signingKey now (signed deps signingKey payload) = readState now payload := by
  unfold verifyOauthState
  rw [openSigned_eq_ok.mpr rfl]
  rfl

@[simp] theorem verifyVerificationToken_signed :
    verifyVerificationToken deps signingKey now (signed deps signingKey payload) =
      readVerification now payload := by
  unfold verifyVerificationToken
  rw [openSigned_eq_ok.mpr rfl]
  rfl

end

/-! ## Reading a payload as a verification token -/

section

variable {payload userId provider : Text} {now exp : ℤ} {redirect : Option Text} {nonce : Nonce}

/-- What reads as a verification token for a user. -/
theorem readVerification_eq_ok :
    readVerification now payload = .ok userId ↔
      ∃ nonceStr expStr exp, payload = "ev:".toList ++ userId ++ ':' :: (nonceStr ++ ':' :: expStr) ∧
        ':' ∉ nonceStr ∧ ':' ∉ expStr ∧ parseI64 expStr = some exp ∧ now ≤ exp := by
  constructor
  · intro h
    unfold readVerification at h
    split at h
    · exact nomatch h
    · rename_i rest hrest
      split at h
      · exact nomatch h
      · rename_i userAndNonce expStr hcut
        split at h
        · exact nomatch h
        · rename_i exp hexp
          split_ifs at h with hlate
          split at h
          · exact nomatch h
          · rename_i userId' nonceStr hcut'
            cases h
            obtain ⟨rfl, hexpStr⟩ := rsplitOnce_eq_some.mp hcut
            obtain ⟨rfl, hnonceStr⟩ := rsplitOnce_eq_some.mp hcut'
            refine ⟨nonceStr, expStr, exp, ?_, hnonceStr, hexpStr, hexp, by omega⟩
            rw [stripPrefix_eq_some.mp hrest]
            simp
  · rintro ⟨nonceStr, expStr, exp, rfl, hnonceStr, hexpStr, hexp, hnow⟩
    have hstrip : stripPrefix "ev:".toList
        ("ev:".toList ++ userId ++ ':' :: (nonceStr ++ ':' :: expStr)) =
          some ((userId ++ ':' :: nonceStr) ++ ':' :: expStr) :=
      stripPrefix_eq_some.mpr (by simp)
    unfold readVerification
    rw [hstrip]
    dsimp only
    rw [rsplitOnce_append hexpStr]
    dsimp only
    rw [hexp]
    dsimp only
    rw [if_neg (by omega), rsplitOnce_append hnonceStr]

/-- A payload of the browser flow does not read as a verification token: what stands last in it is a
redirect, which is not a number. -/
theorem readVerification_of_redirect {r : Text} (h : validateBrowserRedirect r = .ok ()) :
    readVerification now (statePayload provider (some r) nonce exp) ≠ .ok userId := by
  intro hread
  obtain ⟨nonceStr, expStr, exp', hpayload, -, hexpStr, hparse, -⟩ := readVerification_eq_ok.mp hread
  have hlast : some (provider ++ ':' :: (hex nonce.bytes ++ ':' :: showInt exp),
      Base64.encode (utf8 r)) = some ("ev:".toList ++ userId ++ ':' :: nonceStr, expStr) := by
    rw [← rsplitOnce_append hexpStr, ← rsplitOnce_append (colon_notMem_encode (utf8 r))]
    congr 1
    simpa [statePayload] using hpayload
  obtain ⟨-, rfl⟩ := Prod.mk.inj (Option.some.inj hlast)
  -- the redirect starts with an `h`, so its encoding starts with an `a`
  have hhead : ∃ rest, r = 'h' :: rest := by
    unfold validateBrowserRedirect at h
    split_ifs at h with hprefix
    rcases hprefix with ⟨rest, rfl⟩ | ⟨rest, rfl⟩ | ⟨rest, rfl⟩
    · exact ⟨_, rfl⟩
    · exact ⟨_, rfl⟩
    · exact ⟨_, rfl⟩
  obtain ⟨rest, rfl⟩ := hhead
  have hbytes : utf8 ('h' :: rest) = 104 :: utf8 rest := by
    unfold utf8
    rw [List.flatMap_cons]
    rfl
  have ha := Base64.head?_encode_cons 104 (utf8 rest)
  rw [← hbytes, show Base64.charOf ((104 : UInt8).toNat / 4) = 'a' from rfl] at ha
  obtain ⟨cs, hcs⟩ := List.head?_eq_some_iff.mp ha
  rw [hcs] at hparse
  exact nomatch (parseI64_cons_eq_none (by decide) (by decide) (by decide) cs).symm.trans hparse

/-- **When a state reads as a verification token**: its provider is `ev:` and the user, it has no
redirect, and it has not expired. -/
theorem readVerification_statePayload (hexp : parseI64 (showInt exp) = some exp)
    (hredirect : ∀ r ∈ redirect, validateBrowserRedirect r = .ok ()) :
    readVerification now (statePayload provider redirect nonce exp) = .ok userId ↔
      redirect = none ∧ provider = "ev:".toList ++ userId ∧ now ≤ exp := by
  rcases redirect with _ | r
  · rw [readVerification_eq_ok]
    constructor
    · rintro ⟨nonceStr, expStr, exp', hpayload, hnonceStr, hexpStr, hparse, hnow⟩
      have hlast : some (provider ++ ':' :: hex nonce.bytes, showInt exp) =
          some ("ev:".toList ++ userId ++ ':' :: nonceStr, expStr) := by
        rw [← rsplitOnce_append hexpStr, ← rsplitOnce_append (colon_notMem_showInt exp)]
        congr 1
        simpa [statePayload] using hpayload
      obtain ⟨hinit, rfl⟩ := Prod.mk.inj (Option.some.inj hlast)
      have hmid : some (provider, hex nonce.bytes) = some ("ev:".toList ++ userId, nonceStr) := by
        rw [← rsplitOnce_append hnonceStr, ← rsplitOnce_append (colon_notMem_hex nonce.bytes), hinit]
      cases hmid
      cases hexp.symm.trans hparse
      exact ⟨rfl, rfl, hnow⟩
    · rintro ⟨-, rfl, hnow⟩
      exact ⟨hex nonce.bytes, showInt exp, exp, rfl, colon_notMem_hex _, colon_notMem_showInt _, hexp,
        hnow⟩
  · constructor
    · intro h
      exact absurd h (readVerification_of_redirect (hredirect r rfl))
    · rintro ⟨h, -⟩
      exact nomatch h

/-- A verification token reads as what it was issued for. -/
theorem readVerification_verificationPayload {userId' : Text}
    (hexp : parseI64 (showInt exp) = some exp) :
    readVerification now (verificationPayload userId nonce exp) = .ok userId' ↔
      userId' = userId ∧ now ≤ exp := by
  have hsame : verificationPayload userId nonce exp =
      statePayload ("ev:".toList ++ userId) none nonce exp := rfl
  rw [hsame, readVerification_statePayload hexp (by simp)]
  constructor
  · rintro ⟨-, huser, hnow⟩
    exact ⟨(List.append_cancel_left huser).symm, hnow⟩
  · rintro ⟨rfl, hnow⟩
    exact ⟨rfl, rfl, hnow⟩

end

/-! ## Reading a payload as a state -/

section

variable {payload userId provider : Text} {now exp : ℤ} {redirect : Option Text} {nonce : Nonce}

theorem readRedirect_cons_eq_ok {enc : Text} {rest : List Text} {r : Option Text} :
    readRedirect (enc :: rest) = .ok r ↔
      ∃ t, r = some t ∧ (Base64.decode enc).bind fromUtf8 = some t := by
  unfold readRedirect
  dsimp only
  rcases (Base64.decode enc).bind fromUtf8 with _ | t
  · simp
  · simp [eq_comm]

/-- Reading the parts of a payload. -/
theorem readState_of_splitN {a b c : Text} {rest : List Text}
    (hparts : splitN ':' 4 payload = a :: b :: c :: rest) (hexp : parseI64 c = some exp) :
    readState now payload =
      if exp < now then .error (.badRequest, "state expired") else readRedirect rest := by
  unfold readState
  rw [hparts]
  dsimp only
  rw [hexp]

/-- What a state is read as, once four parts are found: the fourth one, decoded. -/
theorem readState_four {a b c enc : Text} {r : Option Text}
    (hparts : splitN ':' 4 payload = [a, b, c, enc]) (h : readState now payload = .ok r) :
    ∃ exp t, parseI64 c = some exp ∧ now ≤ exp ∧ r = some t ∧
      (Base64.decode enc).bind fromUtf8 = some t := by
  rcases hc : parseI64 c with _ | exp
  · unfold readState at h
    rw [hparts] at h
    dsimp only at h
    rw [hc] at h
    cases h
  · rw [readState_of_splitN hparts hc] at h
    split_ifs at h with hlate
    obtain ⟨t, hr, ht⟩ := readRedirect_cons_eq_ok.mp h
    exact ⟨exp, t, rfl, by omega, hr, ht⟩

/-- With three colons or more a payload is never read as a state without a redirect. -/
theorem readState_of_three_le (h : 3 ≤ payload.count ':') : readState now payload ≠ .ok none := by
  intro hread
  obtain ⟨a, b, c, enc, hparts, -⟩ := splitN_four h
  obtain ⟨exp, t, -, -, hnone, -⟩ := readState_four hparts hread
  cases hnone

/-- With four colons or more it is not read as a state at all: the fourth part is not base64. -/
theorem readState_of_four_le (h : 4 ≤ payload.count ':') {r : Option Text} :
    readState now payload ≠ .ok r := by
  intro hread
  obtain ⟨a, b, c, enc, hparts, hcount⟩ := splitN_four (by omega : 3 ≤ payload.count ':')
  obtain ⟨exp, t, -, -, -, hdecode⟩ := readState_four hparts hread
  have hcolon : ':' ∈ enc := List.count_pos_iff.mp (by omega)
  rw [Base64.decode_eq_none hcolon (by decide)] at hdecode
  cases hdecode

/-- **When a state reads as itself**: its provider has no colon. -/
theorem readState_statePayload (hexp : parseI64 (showInt exp) = some exp) (hnow : now ≤ exp) :
    readState now (statePayload provider redirect nonce exp) = .ok redirect ↔ ':' ∉ provider := by
  have hhex := colon_notMem_hex nonce.bytes
  have hshow := colon_notMem_showInt exp
  constructor
  · intro hread hcolon
    have hone : 1 ≤ provider.count ':' := List.count_pos_iff.mpr hcolon
    rcases redirect with _ | r
    · refine readState_of_three_le ?_ hread
      simp only [statePayload, List.count_append, List.count_cons_self]
      omega
    · refine readState_of_four_le ?_ hread
      simp only [statePayload, List.count_append, List.count_cons_self]
      omega
  · intro hprovider
    rcases redirect with _ | r
    · have hparts : splitN ':' 4 (statePayload provider none nonce exp) =
          [provider, hex nonce.bytes, showInt exp] := by
        unfold statePayload
        rw [splitN_append hprovider, splitN_append hhex, splitN_of_notMem hshow]
      rw [readState_of_splitN hparts hexp, if_neg (by omega)]
      rfl
    · have hparts : splitN ':' 4 (statePayload provider (some r) nonce exp) =
          [provider, hex nonce.bytes, showInt exp, Base64.encode (utf8 r)] := by
        unfold statePayload
        rw [splitN_append hprovider, splitN_append hhex, splitN_append hshow,
          splitN_of_notMem (colon_notMem_encode _)]
      rw [readState_of_splitN hparts hexp, if_neg (by omega)]
      refine readRedirect_cons_eq_ok.mpr ⟨r, rfl, ?_⟩
      rw [Base64.decode_encode, Option.bind_some, fromUtf8_utf8]

/-- The nonce of a verification token spells an expiration that is not over, and its expiration
spells a redirect. -/
def LooksLikeState (userId : Text) (nonce : Nonce) (exp now : ℤ) : Prop :=
  ':' ∉ userId ∧ (∃ n, parseI64 (hex nonce.bytes) = some n ∧ now ≤ n) ∧
    ∃ r, (Base64.decode (showInt exp)).bind fromUtf8 = some r

/-- **When a verification token reads as a state.** -/
theorem readState_verificationPayload :
    (∃ r, readState now (verificationPayload userId nonce exp) = .ok r) ↔
      LooksLikeState userId nonce exp now := by
  have hassoc : verificationPayload userId nonce exp =
      "ev".toList ++ ':' :: (userId ++ ':' :: (hex nonce.bytes ++ ':' :: showInt exp)) := by
    simp [verificationPayload]
  by_cases hcolon : ':' ∈ userId
  · constructor
    · rintro ⟨r, hread⟩
      refine absurd hread (readState_of_four_le ?_)
      have hone : 1 ≤ userId.count ':' := List.count_pos_iff.mpr hcolon
      rw [hassoc]
      simp only [List.count_append, List.count_cons_self]
      omega
    · rintro ⟨hnot, -⟩
      exact absurd hcolon hnot
  · have hparts : splitN ':' 4 (verificationPayload userId nonce exp) =
        ["ev".toList, userId, hex nonce.bytes, showInt exp] := by
      rw [hassoc, splitN_append (by decide), splitN_append hcolon,
        splitN_append (colon_notMem_hex _)]
      rfl
    constructor
    · rintro ⟨r, hread⟩
      obtain ⟨n, t, hn, hnow, -, ht⟩ := readState_four hparts hread
      exact ⟨hcolon, ⟨n, hn, hnow⟩, t, ht⟩
    · rintro ⟨-, ⟨n, hn, hnow⟩, t, ht⟩
      refine ⟨some t, ?_⟩
      rw [readState_of_splitN hparts hn, if_neg (by omega)]
      exact readRedirect_cons_eq_ok.mpr ⟨t, rfl, ht⟩

end

/-! ## The two kinds apart -/

/-- One call of `issue_oauth_state`: what it is given, draws and reads from the clock. -/
structure StateIssue where
  provider : Text
  redirect : Option Text
  nonce : Nonce
  issuedAt : ℤ

/-- One call of `issue_verification_token`. -/
structure TokenIssue where
  userId : Text
  ttlSecs : ℕ
  nonce : Nonce
  issuedAt : ℤ

section

variable (deps : Deps) (signingKey : Bytes)

def StateIssue.exp (i : StateIssue) : ℤ := stateExp i.issuedAt

def StateIssue.text (i : StateIssue) : Text :=
  issueOauthState deps signingKey i.provider i.redirect i.nonce i.issuedAt

def TokenIssue.exp (i : TokenIssue) : ℤ := verificationExp i.ttlSecs i.issuedAt

def TokenIssue.text (i : TokenIssue) : Text :=
  issueVerificationToken deps signingKey i.userId i.ttlSecs i.nonce i.issuedAt

/-- A state and a token are told apart at the moment `now`, and the state reads as itself. -/
structure Separated (i : StateIssue) (j : TokenIssue) (now : ℤ) : Prop where
  stateRefused : ∀ userId,
    verifyVerificationToken deps signingKey now (i.text deps signingKey) ≠ .ok userId
  tokenRefused : ∀ redirect,
    verifyOauthState deps signingKey now (j.text deps signingKey) ≠ .ok redirect
  stateRead : now ≤ i.exp →
    verifyOauthState deps signingKey now (i.text deps signingKey) = .ok i.redirect

variable {deps signingKey} {i : StateIssue} {j : TokenIssue} {now : ℤ}

theorem verifyVerificationToken_state (h : ∀ r ∈ i.redirect, validateBrowserRedirect r = .ok ())
    {userId : Text} :
    verifyVerificationToken deps signingKey now (i.text deps signingKey) = .ok userId ↔
      i.redirect = none ∧ i.provider = "ev:".toList ++ userId ∧ now ≤ i.exp := by
  unfold StateIssue.text issueOauthState
  rw [verifyVerificationToken_signed]
  exact readVerification_statePayload (parseI64_showInt_toI64 _) h

theorem verifyOauthState_token :
    (∃ r, verifyOauthState deps signingKey now (j.text deps signingKey) = .ok r) ↔
      LooksLikeState j.userId j.nonce j.exp now := by
  unfold TokenIssue.text issueVerificationToken
  simp only [verifyOauthState_signed]
  exact readState_verificationPayload

theorem verifyOauthState_state (h : now ≤ i.exp) :
    verifyOauthState deps signingKey now (i.text deps signingKey) = .ok i.redirect ↔
      ':' ∉ i.provider := by
  unfold StateIssue.text issueOauthState
  rw [verifyOauthState_signed]
  exact readState_statePayload (parseI64_showInt_toI64 _) h

/-- **When the two kinds are apart.** -/
theorem separated_iff (h : ∀ r ∈ i.redirect, validateBrowserRedirect r = .ok ()) :
    Separated deps signingKey i j now ↔
      (now ≤ i.exp → ':' ∉ i.provider) ∧ ¬ LooksLikeState j.userId j.nonce j.exp now := by
  constructor
  · intro hsep
    refine ⟨fun hnow => (verifyOauthState_state hnow).mp (hsep.stateRead hnow), fun hlooks => ?_⟩
    obtain ⟨r, hread⟩ := verifyOauthState_token.mpr hlooks
    exact hsep.tokenRefused r hread
  · rintro ⟨hcolon, hlooks⟩
    refine ⟨fun userId hread => ?_, fun r hread => ?_, fun hnow => ?_⟩
    · obtain ⟨-, hprovider, hnow⟩ := (verifyVerificationToken_state h).mp hread
      apply hcolon hnow
      rw [hprovider]
      simp
    · exact hlooks (verifyOauthState_token.mp ⟨r, hread⟩)
    · exact (verifyOauthState_state hnow).mpr (hcolon hnow)

end

/-- The redirects that `/auth/oauth/start` lets through were looked at. -/
theorem validateBrowserRedirect_of_query {query : OAuthStartQuery} {redirect : Option Text}
    (h : browserRedirectFromQuery query = .ok redirect) :
    ∀ r ∈ redirect, validateBrowserRedirect r = .ok () := by
  rintro r ⟨⟩
  unfold browserRedirectFromQuery at h
  split_ifs at h
  · exact nomatch h
  split at h
  · exact nomatch h
  · rename_i r' _
    rcases hvalid : validateBrowserRedirect r' with e | ⟨⟩
    · rw [hvalid] at h
      exact nomatch h
    · rw [hvalid] at h
      cases h
      exact hvalid

/-! ## Runs -/

/-- What happens around the tokens: a flow is started, a token is delivered to a new or asking user, a
token is presented, and other requests change the accounts in whatever way. -/
inductive TokenEvent
  | oauthStart (query : OAuthStartQuery) (draw : StartDraw) (now : ℤ)
  | deliver (userId : Text) (nonce : Nonce) (now : ℤ)
  | verifyEmail (token : Text) (now : ℤ) (db : DbHealth)
  | others (users : UserTable)

section

variable (deps : Deps) (state : AuthHttpState)

def tokenStep (users : UserTable) : TokenEvent → UserTable
  | .oauthStart .. | .deliver .. => users
  | .verifyEmail token now db => (verifyEmailInner deps state users token now db).2
  | .others users' => users'

/-- The payload that an event has the server sign. -/
def signs : TokenEvent → Option Text
  | .oauthStart query draw now =>
    if state.oauth.mode.isActive then
      match browserRedirectFromQuery query with
      | .error _ => none
      | .ok redirect => some (statePayload (providerOf query) redirect draw.nonce (stateExp now))
    else none
  | .deliver userId nonce now =>
    if state.emailVerify.mode.isActive then
      some (verificationPayload userId nonce (verificationExp state.emailVerify.tokenTtlSecs now))
    else none
  | .verifyEmail .. | .others _ => none

/-- The MAC is not forged: what is presented with a right signature was signed before. -/
def Unforged (hist : List (UserTable × TokenEvent)) (_ : UserTable) (e : TokenEvent) : Prop :=
  ∀ token now db payload, e = .verifyEmail token now db →
    token = signed deps state.signingKey payload → ∃ y ∈ hist, signs state y.2 = some payload

/-- No flow without a redirect is started for a provider that starts with `ev:`. -/
def Undisguised (_ : UserTable) : TokenEvent → Prop
  | .oauthStart query _ _ =>
    browserRedirectFromQuery query = .ok none → ¬ "ev:".toList <+: providerOf query
  | _ => True

/-- The text is a verification token that was issued for the user. -/
def IssuedFor (hist : List (UserTable × TokenEvent)) (token userId : Text) : Prop :=
  ∃ y ∈ hist, ∃ nonce now, y.2 = .deliver userId nonce now ∧
    token = issueVerificationToken deps state.signingKey userId state.emailVerify.tokenTtlSecs nonce now

/-- Whoever is taken for a user, and gets an access token, presents a token issued for that user. -/
structure Granted (hist : List (UserTable × TokenEvent)) (users : UserTable) (e : TokenEvent) :
    Prop where
  verified : ∀ token now db userId, e = .verifyEmail token now db →
    verifyVerificationToken deps state.signingKey now token = .ok userId →
      IssuedFor deps state hist token userId
  answered : ∀ token now db resp, e = .verifyEmail token now db →
    (verifyEmailInner deps state users token now db).1 = .ok resp →
      IssuedFor deps state hist token resp.user.userId

variable {deps state}

/-- What the server signs: the payload of a state it starts a flow with, or that of a token it
delivers. -/
theorem of_signs_eq_some {e : TokenEvent} {payload : Text} (h : signs state e = some payload) :
    (∃ query draw now redirect, e = .oauthStart query draw now ∧
      browserRedirectFromQuery query = .ok redirect ∧
      payload = statePayload (providerOf query) redirect draw.nonce (stateExp now)) ∨
    ∃ userId nonce now, e = .deliver userId nonce now ∧
      payload = verificationPayload userId nonce
        (verificationExp state.emailVerify.tokenTtlSecs now) := by
  unfold signs at h
  split at h
  · rename_i query draw now
    split_ifs at h with hactive
    split at h
    · exact nomatch h
    · rename_i redirect hquery
      cases h
      exact .inl ⟨query, draw, now, redirect, rfl, hquery, rfl⟩
  · rename_i userId nonce now
    split_ifs at h with hactive
    cases h
    exact .inr ⟨userId, nonce, now, rfl, rfl⟩
  · exact nomatch h
  · exact nomatch h

/-- What a started flow hands out was signed. -/
theorem signs_of_oauthStartInner {query : OAuthStartQuery} {draw : StartDraw} {now : ℤ}
    {resp : OAuthStartResponse} (h : oauthStartInner deps state query draw now = .ok resp) :
    ∃ payload, signs state (.oauthStart query draw now) = some payload ∧
      resp.state = signed deps state.signingKey payload := by
  unfold oauthStartInner at h
  rcases hactive : state.oauth.mode.isActive with _ | _
  · rw [hactive] at h
    cases h
  rcases hquery : browserRedirectFromQuery query with e | redirect
  · rw [hactive, hquery] at h
    cases h
  refine ⟨_, by rw [signs, if_pos hactive, hquery], ?_⟩
  rw [hactive, hquery] at h
  rcases hurl : buildAuthorizationUrl deps state (providerOf query)
    (issueOauthState deps state.signingKey (providerOf query) redirect draw.nonce now) redirect draw
    with e | url
  · change (do let url ← buildAuthorizationUrl deps state _ _ redirect draw; _) = _ at h
    rw [hurl] at h
    cases h
  · change (do let url ← buildAuthorizationUrl deps state _ _ redirect draw; _) = _ at h
    rw [hurl] at h
    cases h
    rfl

/-- What a delivery hands out is the token that was signed. -/
theorem signs_of_deliverVerification {userId token : Text} {nonce : Nonce} {now : ℤ}
    (h : (deliverVerification deps state userId nonce now).verificationToken = some token) :
    ∃ payload, signs state (.deliver userId nonce now) = some payload ∧
      token = signed deps state.signingKey payload := by
  unfold deliverVerification at h
  split_ifs at h with hactive
  refine ⟨_, by rw [signs, if_pos hactive], ?_⟩
  rcases hmode : state.emailVerify.mode with _ | _ | _
  · rw [hmode] at h
    cases h
  · rw [hmode] at h
    cases h
    rfl
  · rw [hmode] at h
    cases h

/-- The account that an answer is about is the one the token was read for. -/
theorem verified_of_verifyEmailInner {users : UserTable} {token : Text} {now : ℤ} {db : DbHealth}
    {resp : AuthTokenResponse} (h : (verifyEmailInner deps state users token now db).1 = .ok resp) :
    verifyVerificationToken deps state.signingKey now token = .ok resp.user.userId := by
  unfold verifyEmailInner at h
  split at h
  · split at h
    · exact nomatch h
    · rename_i userId hverify
      split at h
      · split at h
        · exact nomatch h
        · rename_i user huser
          have hid := (UserTable.getUserById_eq_some.mp huser).2
          have hbuild : buildTokenResponse deps state user.id user.email user.tenantId true now.toNat =
              .ok resp := by
            dsimp only at h
            split_ifs at h
            · exact h
            · exact h
          rw [hverify, user_of_buildTokenResponse deps hbuild, ← hid]
      · exact nomatch h
  · exact nomatch h

/-- **What reads as a verification token was issued as one**, along a run in which no state is
disguised. -/
theorem always_granted {users : UserTable} {es : List TokenEvent}
    (hunforged : Always (tokenStep deps state) (Unforged deps state) users es)
    (hundisguised : Always (tokenStep deps state) (fun _ => Undisguised) users es) :
    Always (tokenStep deps state) (Granted deps state) users es := by
  rintro pre e post rfl
  have hforge := hunforged pre e post rfl
  have hclean := forall_mem_history hundisguised.of_append
  have hverified : ∀ token now db userId, e = .verifyEmail token now db →
      verifyVerificationToken deps state.signingKey now token = .ok userId →
        IssuedFor deps state (history (tokenStep deps state) users pre) token userId := by
    intro token now db userId he hverify
    obtain ⟨payload, hopen, hread⟩ : ∃ payload,
        openSigned deps state.signingKey "invalid token" token = .ok payload ∧
          readVerification now payload = .ok userId := by
      unfold verifyVerificationToken at hverify
      rcases hopen : openSigned deps state.signingKey "invalid token" token with err | payload
      · rw [hopen] at hverify
        cases hverify
      · rw [hopen] at hverify
        exact ⟨payload, rfl, hverify⟩
    have htoken := openSigned_eq_ok.mp hopen
    obtain ⟨y, hy, hsigns⟩ := hforge token now db payload he htoken
    obtain ⟨query, draw, issuedAt, redirect, hstart, hquery, rfl⟩ |
      ⟨userId', nonce, issuedAt, hdeliver, rfl⟩ := of_signs_eq_some hsigns
    · -- the payload of a state reads as a token only in disguise
      obtain ⟨rfl, hprovider, -⟩ := (readVerification_statePayload (parseI64_showInt_toI64 _)
        (validateBrowserRedirect_of_query hquery)).mp hread
      have hundisguised := hclean y hy
      rw [hstart] at hundisguised
      refine absurd ?_ (hundisguised hquery)
      rw [hprovider]
      exact List.prefix_append _ _
    · obtain ⟨rfl, -⟩ :=
        (readVerification_verificationPayload (parseI64_showInt_toI64 _)).mp hread
      exact ⟨y, hy, nonce, issuedAt, hdeliver, htoken⟩
  refine ⟨hverified, ?_⟩
  intro token now db resp he hresp
  exact hverified token now db _ he (verified_of_verifyEmailInner hresp)

/-- **Domain separation of the signed tokens.** At any moment a state that `/auth/oauth/start` issues
and a verification token are apart, and the state reads as itself, exactly when the provider has no
colon (or the state has expired) and the token does not look like a state. And along every run without
forgeries in which no flow without a redirect is started for a provider that starts with `ev:`, a user
is only ever recognised by a token that was issued for that user. -/
theorem signedTokens_separated (deps : Deps) (state : AuthHttpState) :
    (∀ query redirect, browserRedirectFromQuery query = .ok redirect →
      ∀ nonce issuedAt (j : TokenIssue) now,
        (Separated deps state.signingKey ⟨providerOf query, redirect, nonce, issuedAt⟩ j now ↔
          (now ≤ stateExp issuedAt → ':' ∉ providerOf query) ∧
            ¬ LooksLikeState j.userId j.nonce j.exp now)) ∧
      ∀ users es, Always (tokenStep deps state) (Unforged deps state) users es →
        Always (tokenStep deps state) (fun _ => Undisguised) users es →
          Always (tokenStep deps state) (Granted deps state) users es := by
  refine ⟨?_, fun users es => always_granted⟩
  intro query redirect hquery nonce issuedAt j now
  exact separated_iff (validateBrowserRedirect_of_query hquery)

end

/-! ### A provider in disguise -/

def flowOf (provider : String) : OAuthStartQuery := ⟨some provider.toList, none, none⟩

def nonceOf (byte : UInt8) : Nonce := ⟨List.replicate 16 byte, rfl⟩

/-- A server with stub flows and stub verification. -/
def stubState : AuthHttpState where
  signingKey := List.replicate 32 0
  jwt := ⟨.local_, List.replicate 32 0, 3600, "disk-arcana".toList⟩
  oauth := ⟨.stub, none, none, none, some "https://disk".toList⟩
  emailVerify := ⟨.stub, none, 3600⟩

/-- Someone starts a flow for the provider `ev:usr_x` and presents the state as a verification
token. -/
def disguisedRun (deps : Deps) : List TokenEvent :=
  [.oauthStart (flowOf "ev:usr_x") ⟨nonceOf 0xAA, [], []⟩ 0,
    .verifyEmail (issueOauthState deps stubState.signingKey "ev:usr_x".toList none (nonceOf 0xAA) 0) 1
      ⟨true, true⟩]

/-- Whatever the MAC, the two kinds are not apart for every provider; and although nothing is forged, a
user is recognised who was never sent a token. -/
theorem not_separated_of_disguised :
    (¬ ∃ deps : Deps, ∀ signingKey query redirect, browserRedirectFromQuery query = .ok redirect →
      ∀ nonce issuedAt j now,
        Separated deps signingKey ⟨providerOf query, redirect, nonce, issuedAt⟩ j now) ∧
    ∀ deps : Deps,
      Always (tokenStep deps stubState) (Unforged deps stubState) .empty (disguisedRun deps) ∧
        ¬ Always (tokenStep deps stubState) (Granted deps stubState) .empty (disguisedRun deps) := by
  have hread : ∀ deps signingKey now, now ≤ 600 →
      verifyVerificationToken deps signingKey now
        (StateIssue.text deps signingKey ⟨"ev:usr_x".toList, none, nonceOf 0xAA, 0⟩) =
          .ok "usr_x".toList := by
    intro deps signingKey now hnow
    exact (verifyVerificationToken_state (by simp)).mpr ⟨rfl, rfl, hnow⟩
  refine ⟨?_, fun deps => ⟨?_, fun hgranted => ?_⟩⟩
  · rintro ⟨deps, h⟩
    have hsep := h [] (flowOf "ev:usr_x") none rfl (nonceOf 0xAA) 0 ⟨[], 0, nonceOf 0xAA, 0⟩ 0
    exact hsep.stateRefused _ (hread deps [] 0 (by decide))
  · refine always_pair.mpr ⟨nofun, ?_⟩
    rintro token now db payload ⟨⟩ hpayload
    exact ⟨_, List.mem_cons_self, congrArg some (signed_injective hpayload)⟩
  · obtain ⟨y, hy, nonce, now, hdeliver, -⟩ := (hgranted [_] _ [] rfl).verified _ _ _ _ rfl
      (hread deps stubState.signingKey 1 (by decide))
    cases List.mem_singleton.mp hy
    cases hdeliver

/-- A flow for a plain provider and a token with a nonce that is not a number, and a run in which the
token is delivered and presented. -/
theorem signedTokens_separated_google :
    let deps : Deps := ⟨fun key message => key ++ message, fun _ claims => some claims.sub, id⟩
    let j : TokenIssue := ⟨"usr_x".toList, 3600, nonceOf 0xAA, 0⟩
    Separated deps stubState.signingKey ⟨"google".toList, none, nonceOf 0xAA, 0⟩ j 0 ∧
      Always (tokenStep deps stubState) (Granted deps stubState) .empty
        [.deliver j.userId j.nonce 0, .verifyEmail (j.text deps stubState.signingKey) 0 ⟨true, true⟩] := by
  intro deps j
  constructor
  · refine ((signedTokens_separated deps stubState).1 (flowOf "google") none rfl (nonceOf 0xAA) 0 j
      0).mpr ⟨fun _ => by decide, ?_⟩
    rintro ⟨-, ⟨n, hn, -⟩, -⟩
    have hnone : parseI64 (hex (nonceOf 0xAA).bytes) = none := by decide +kernel
    exact nomatch hnone.symm.trans hn
  · refine (signedTokens_separated deps stubState).2 .empty _ ?_ ?_
    · refine always_pair.mpr ⟨nofun, ?_⟩
      rintro token now db payload ⟨⟩ hpayload
      exact ⟨_, List.mem_cons_self, congrArg some (signed_injective hpayload)⟩
    · exact always_pair.mpr ⟨trivial, trivial⟩

end DiskArcana.Accounts
