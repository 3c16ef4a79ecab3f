import Mathlib.Data.List.AList
import DiskArcana.Lib.Trace
import DiskArcana.Nodes.Model
import DiskArcana.Webhooks.Signature

/-!
# Webhooks of the payment provider

A webhook about an active subscription sets the plan of the default tenant (`stripe_webhook`). It is verified
when a secret is configured. What runs of webhooks make of the table of plans is `stripeLaw`: with a secret,
the row of the default tenant is what the last accepted webhook says, which the provider signed, and no
webhook is about any other tenant. Nothing remembers which webhooks were accepted before, and one about a
subscription that ended is refused.
-/

namespace DiskArcana.Webhooks

open DiskArcana.Lib DiskArcana.Lib.Text DiskArcana.Lib.Trace DiskArcana.Accounts

/-! ## Events -/

/-- Source: `billing/tier.rs`, `PlanTier::from_stripe_lookup_key` -/
def planOfLookupKey (key : Text) : Option PlanTier :=
  if key = "disk_free".toList then some .free
  else if key = "disk_pro".toList then some .pro
  else if key = "disk_team".toList then some .team
  else none

/-- The lookup keys of the items of a subscription, in their order. -/
structure StripeSubscription where
  customer : Text
  id : Text
  status : Text
  lookupKeys : List (Option Text)
  deriving DecidableEq

/-- Source: `billing/stripe.rs`, `StripeEnvelope` -/
structure StripeEnvelope where
  eventType : Text
  object : StripeSubscription
  deriving DecidableEq

inductive StripeParseError where
  | json
  | unsupportedEvent (eventType : Text)
  | inactiveSubscription (status : Text)
  | missingLookupKey
  | unknownLookupKey (key : Text)
  deriving DecidableEq

/-- Source: `billing/stripe.rs`, `StripeSubscriptionEvent` -/
structure StripeSubscriptionEvent where
  eventType : Text
  stripeCustomerId : Text
  stripeSubscriptionId : Text
  planTier : PlanTier
  deriving DecidableEq

/-- What is not modelled: the HMAC, and the reader of JSON for the types of the envelope. -/
structure StripeDeps extends Deps where
  envelopeFromStr : Text → Option StripeEnvelope

/-- Source: `billing/stripe.rs`, `parse_stripe_subscription_event` -/
def parseStripeSubscriptionEvent (deps : StripeDeps) (body : Text) :
    Except StripeParseError StripeSubscriptionEvent :=
  match deps.envelopeFromStr body with
  | none => .error .json
  | some envelope =>
    if ¬ "customer.subscription.".toList <+: envelope.eventType then .error (.unsupportedEvent envelope.eventType)
    else if envelope.object.status ≠ "active".toList ∧ envelope.object.status ≠ "trialing".toList then
      .error (.inactiveSubscription envelope.object.status)
    else
      match envelope.object.lookupKeys.head?.join with
      | none => .error .missingLookupKey
      | some key =>
        match planOfLookupKey key with
        | none => .error (.unknownLookupKey key)
        | some tier => .ok ⟨envelope.eventType, envelope.object.customer, envelope.object.id, tier⟩

/-! ## The handler -/

/-- A row of `tenant_billing`. -/
structure TenantBillingRow where
  planTier : PlanTier
  stripeCustomerId : Option Text
  stripeSubscriptionId : Option Text
  deriving DecidableEq

/-- The plans of the tenants. `UNIQUE(tenant_id)` does not bind NULL, and the upserts are an `UPDATE` and,
when it changes nothing, an `INSERT`: there is one row of the default tenant as handlers run one after the
other. -/
abbrev BillingTable := AList fun _ : Option Text => TenantBillingRow

/-- Source: `meta_db/billing.rs`, `set_plan_tier` -/
def setPlanTier (table : BillingTable) (tenantId : Option Text) (tier : PlanTier) : BillingTable :=
  table.insert tenantId
    ⟨tier, (table.lookup tenantId).bind TenantBillingRow.stripeCustomerId,
      (table.lookup tenantId).bind TenantBillingRow.stripeSubscriptionId⟩

/-- Source: `meta_db/billing.rs`, `apply_stripe_subscription` -/
def applyStripeSubscription (table : BillingTable) (tenantId : Option Text) (customer subscription : Text)
    (tier : PlanTier) : BillingTable :=
  table.insert tenantId ⟨tier, some customer, some subscription⟩

/-- Source: `billing/webhook.rs`, `WebhookState` -/
structure StripeConfig where
  mode : Nodes.BillingMode
  webhookSecret : Option Text
  signatureToleranceSecs : ℕ
  requireSignatureHeader : Bool

/-- A request, and when it comes. A header that is no text is no header. -/
structure StripeRequest where
  signature : Option Text
  body : Bytes
  now : ℤ

/-- Source: `billing/webhook.rs`, `WebhookState::verify_request` -/
def verifyRequest (deps : StripeDeps) (config : StripeConfig) (r : StripeRequest) : Except StatusCode Unit :=
  match config.webhookSecret, r.signature with
  | some secret, some header =>
    (verifyStripeWebhookSignature deps.toDeps r.now header r.body secret
      config.signatureToleranceSecs).mapError fun _ => .badRequest
  | some _, none => .error .badRequest
  | none, some _ => if config.requireSignatureHeader then .error .internalServerError else .ok ()
  | none, none => if config.requireSignatureHeader then .error .badRequest else .ok ()

/-- The subscription that a request is accepted for, or the refusal. -/
def admitRequest (deps : StripeDeps) (config : StripeConfig) (r : StripeRequest) :
    Answer StripeSubscriptionEvent :=
  match config.mode, verifyRequest deps config r with
  | .disabled, _ | .enforce, _ => .error (.notFound, "billing webhooks disabled")
  | .stripe, .error .internalServerError => .error (.internalServerError, "webhook secret not configured")
  | .stripe, .error status => .error (status, "invalid signature")
  | .stripe, .ok () =>
    match fromUtf8 r.body with
    | none => .error (.badRequest, "invalid utf-8")
    | some body =>
      match parseStripeSubscriptionEvent deps body with
      | .error _ => .error (.badRequest, "invalid payload")
      | .ok event => .ok event

/-- Source: `billing/webhook.rs`, `stripe_webhook` -/
def stripeWebhook (deps : StripeDeps) (config : StripeConfig) (table : BillingTable) (r : StripeRequest)
    (persist : Bool) : Answer Unit × BillingTable :=
  match admitRequest deps config r with
  | .error e => (.error e, table)
  | .ok event =>
    if persist then
      (.ok (), applyStripeSubscription table none event.stripeCustomerId event.stripeSubscriptionId event.planTier)
    else (.error (.internalServerError, "persist failed"), table)

/-! ## Runs -/

/-- Webhooks come in, and accounts are created: `set_plan_tier` is called for nothing else. -/
inductive BillingEvent where
  | webhook (r : StripeRequest) (persist : Bool)
  | signup (tenantId : Text)

section Run

variable (deps : StripeDeps) (config : StripeConfig)

def billingStep (table : BillingTable) : BillingEvent → BillingTable
  | .webhook r persist => (stripeWebhook deps config table r persist).2
  | .signup tenantId => setPlanTier table (some tenantId) .free

/-- The subscription that an event puts into the table. -/
def applied : BillingEvent → Option StripeSubscriptionEvent
  | .webhook r persist => if persist then (admitRequest deps config r).toOption else none
  | .signup _ => none

/-- The row of a subscription. -/
def StripeSubscriptionEvent.row (event : StripeSubscriptionEvent) : TenantBillingRow :=
  ⟨event.planTier, some event.stripeCustomerId, some event.stripeSubscriptionId⟩

/-- Nobody but the provider makes signatures: what a request is signed for, the provider signed. -/
def Unforged (secret : Text) (signed : ℤ → Text → Prop) (r : StripeRequest) : Prop :=
  ∀ header t sigs, r.signature = some header → parseStripeHeader header = .ok (t, sigs) →
    computeV1Signature deps.toDeps secret t r.body ∈ sigs →
      ∃ t' body, signed t' body ∧ signedText t r.body = signedText t' (utf8 body)

/-- What runs of webhooks make of the plans. -/
structure StripeLaw (table₀ : BillingTable) (es : List BillingEvent) (table : BillingTable) : Prop where
  /-- The default tenant has the plan of the last webhook that was accepted. -/
  default_ : table.lookup none =
    ((es.filterMap (applied deps config)).getLast?.map StripeSubscriptionEvent.row).or (table₀.lookup none)
  /-- No other tenant gets another plan than the free one. -/
  tenants : ∀ tenantId row, table.lookup (some tenantId) = some row →
    table₀.lookup (some tenantId) = some row ∨ row.planTier = .free
  /-- With a secret, an accepted webhook is one that the provider signed at its time. -/
  signed : ∀ secret signed, config.webhookSecret = some secret →
    (∀ r persist, .webhook r persist ∈ es → Unforged deps secret signed r) →
      ∀ r persist event, .webhook r persist ∈ es → applied deps config (.webhook r persist) = some event →
        ∃ t body, signed t body ∧ r.body = utf8 body ∧ parseStripeSubscriptionEvent deps body = .ok event ∧
          min |r.now - t| (2 ^ 63 - 1) ≤ config.signatureToleranceSecs
  /-- Without a secret, webhooks are refused when they have to be signed, and else accepted from anyone. -/
  unsigned : config.webhookSecret = none → ∀ r event, applied deps config (.webhook r true) = some event ↔
    config.mode = .stripe ∧ config.requireSignatureHeader = false ∧
      ∃ body, r.body = utf8 body ∧ parseStripeSubscriptionEvent deps body = .ok event

variable {deps config} {r : StripeRequest} {event : StripeSubscriptionEvent}

theorem fromUtf8_eq_some_iff {bytes : Bytes} {t : Text} : fromUtf8 bytes = some t ↔ bytes = utf8 t :=
  OsPath.toStr_eq_some_iff

/-- What a request is accepted for. -/
theorem admitRequest_eq_ok_iff : admitRequest deps config r = .ok event ↔
    config.mode = .stripe ∧ verifyRequest deps config r = .ok () ∧
      ∃ body, r.body = utf8 body ∧ parseStripeSubscriptionEvent deps body = .ok event := by
  unfold admitRequest
  constructor
  · intro h
    rcases hmode : config.mode
    · simp only [hmode] at h
      cases h
    · simp only [hmode] at h
      cases h
    · rcases hverify : verifyRequest deps config r with status | ⟨⟩
      · rw [hmode, hverify] at h
        cases status <;> cases h
      · rcases hbody : fromUtf8 r.body with _ | body
        · simp only [hmode, hverify, hbody] at h
          cases h
        · rcases hparse : parseStripeSubscriptionEvent deps body with e | event'
          · simp only [hmode, hverify, hbody, hparse] at h
            cases h
          · simp only [hmode, hverify, hbody, hparse] at h
            cases h
            exact ⟨rfl, rfl, body, fromUtf8_eq_some_iff.mp hbody, hparse⟩
  · rintro ⟨hmode, hverify, body, hbody, hparse⟩
    simp only [hmode, hverify, fromUtf8_eq_some_iff.mpr hbody, hparse]

theorem applied_webhook_eq_some_iff {persist : Bool} :
    applied deps config (.webhook r persist) = some event ↔
      persist = true ∧ admitRequest deps config r = .ok event := by
  have happlied : applied deps config (.webhook r persist) =
      if persist then (admitRequest deps config r).toOption else none := rfl
  rw [happlied]
  rcases admitRequest deps config r with e | event' <;> cases persist <;> simp [Except.toOption]

variable (deps config) in
/-- A step puts a subscription into the row of the default tenant, or a new account gets its plan. -/
theorem billingStep_eq (table : BillingTable) (e : BillingEvent) :
    (∃ event, applied deps config e = some event ∧ billingStep deps config table e = table.insert none event.row) ∨
      applied deps config e = none ∧ (billingStep deps config table e = table ∨
        ∃ tenantId, billingStep deps config table e = setPlanTier table (some tenantId) .free) := by
  cases e with
  | signup tenantId => exact .inr ⟨rfl, .inr ⟨tenantId, rfl⟩⟩
  | webhook r persist =>
      have happlied : applied deps config (.webhook r persist) =
          if persist then (admitRequest deps config r).toOption else none := rfl
      have hstep : billingStep deps config table (.webhook r persist) =
          (stripeWebhook deps config table r persist).2 := rfl
      rw [happlied, hstep, stripeWebhook]
      rcases admitRequest deps config r with refusal | event
      · right
        cases persist <;> exact ⟨rfl, .inl rfl⟩
      · cases persist
        · exact .inr ⟨rfl, .inl rfl⟩
        · exact .inl ⟨event, rfl, rfl⟩

theorem checkTimestampSkew_eq_ok_iff {now t : ℤ} {tolerance : ℕ} :
    checkTimestampSkew now t tolerance = .ok () ↔
      (max (-2 ^ 63) (min (2 ^ 63 - 1) (now - t))).natAbs ≤ tolerance := by
  unfold checkTimestampSkew
  dsimp only
  split_ifs with hage
  · simpa using hage
  · simpa using hage

/-- A verified request was signed by the provider, if nobody else signs. -/
theorem signed_of_admitRequest {secret : Text} {signed : ℤ → Text → Prop} (hsecret : config.webhookSecret = some secret)
    (hunforged : Unforged deps secret signed r) (h : admitRequest deps config r = .ok event) :
    ∃ t body, signed t body ∧ r.body = utf8 body ∧ parseStripeSubscriptionEvent deps body = .ok event ∧
      min |r.now - t| (2 ^ 63 - 1) ≤ config.signatureToleranceSecs := by
  obtain ⟨-, hverify, body, hbody, hparse⟩ := admitRequest_eq_ok_iff.mp h
  unfold verifyRequest at hverify
  rcases hheader : r.signature with _ | header
  · simp only [hsecret, hheader] at hverify
    cases hverify
  · simp only [hsecret, hheader] at hverify
    rcases hresult : verifyStripeWebhookSignature deps.toDeps r.now header r.body secret
        config.signatureToleranceSecs with e | ⟨⟩
    · rw [hresult] at hverify
      cases hverify
    · obtain ⟨-, t, sigs, hread, hskew, hsig⟩ := verifyStripe_eq_ok_iff.mp hresult
      obtain ⟨t', body', hsigned, htext⟩ := hunforged header t sigs hheader hread hsig
      obtain ⟨rfl, hlossy⟩ := signedText_inj.mp htext
      rw [hbody] at hlossy
      have hlossy' : OsPath.toStringLossy (OsPath.utf8 body) = OsPath.toStringLossy (OsPath.utf8 body') := hlossy
      rw [OsPath.toStringLossy_utf8, OsPath.toStringLossy_utf8] at hlossy'
      refine ⟨t, body, hlossy' ▸ hsigned, hbody, hparse, ?_⟩
      have hage := checkTimestampSkew_eq_ok_iff.mp hskew
      have habs : ((r.now - t).natAbs : ℤ) = |r.now - t| := Int.natCast_natAbs _
      omega

/-- A table after subscriptions and new accounts. -/
structure Billed (table₀ : BillingTable) (events : List StripeSubscriptionEvent) (table : BillingTable) : Prop where
  default_ : table.lookup none =
    (events.getLast?.map StripeSubscriptionEvent.row).or (table₀.lookup none)
  tenants : ∀ tenantId row, table.lookup (some tenantId) = some row →
    table₀.lookup (some tenantId) = some row ∨ row.planTier = .free

variable (deps config) in
theorem billed_run (table₀ : BillingTable) (es : List BillingEvent) :
    Billed table₀ (es.filterMap (applied deps config)) (run (billingStep deps config) table₀ es) := by
  induction es using List.reverseRecOn with
  | nil => exact ⟨rfl, fun _ _ h => .inl h⟩
  | append_singleton es e ih =>
      obtain ⟨hdefault, htenants⟩ := ih
      rw [run_snoc, filterMap_snoc]
      generalize run (billingStep deps config) table₀ es = table at hdefault htenants ⊢
      rcases billingStep_eq deps config table e with
        ⟨event, hevent, hstep⟩ | ⟨hevent, hstep | ⟨tenantId, hstep⟩⟩
      · rw [hstep, hevent]
        refine ⟨?_, fun tenantId row hrow => ?_⟩
        · rw [AList.lookup_insert, Option.toList_some, List.getLast?_concat]
          rfl
        · rw [AList.lookup_insert_ne (by simp)] at hrow
          exact htenants tenantId row hrow
      · rw [hstep, hevent, Option.toList_none, List.append_nil]
        exact ⟨hdefault, htenants⟩
      · rw [hstep, hevent, Option.toList_none, List.append_nil]
        refine ⟨?_, fun tenantId' row hrow => ?_⟩
        · rw [setPlanTier, AList.lookup_insert_ne (by simp)]
          exact hdefault
        · by_cases hsame : tenantId' = tenantId
          · rw [hsame, setPlanTier, AList.lookup_insert, Option.some.injEq] at hrow
            exact .inr (hrow ▸ rfl)
          · rw [setPlanTier, AList.lookup_insert_ne (by simpa using hsame)] at hrow
            exact htenants tenantId' row hrow

/-- **What runs of webhooks make of the plans.** -/
theorem stripeLaw (table₀ : BillingTable) (es : List BillingEvent) :
    StripeLaw deps config table₀ es (run (billingStep deps config) table₀ es) := by
  obtain ⟨hdefault, htenants⟩ := billed_run deps config table₀ es
  refine ⟨hdefault, htenants, ?_, ?_⟩
  · intro secret signed hsecret hunforged r persist event hmem happlied
    exact signed_of_admitRequest hsecret (hunforged r persist hmem) (applied_webhook_eq_some_iff.mp happlied).2
  · intro hsecret r event
    rw [applied_webhook_eq_some_iff, admitRequest_eq_ok_iff, verifyRequest, hsecret]
    rcases r.signature with _ | header <;> cases config.requireSignatureHeader <;> simp

end Run

/-! ## A signed webhook -/

def stripeSecret : Text := ['w', 'h', 's', 'e', 'c']

def stripeBody : Text :=
  ("\x7b\"type\":\"customer.subscription.updated\",\"data\":\x7b\"object\":\x7b\"customer\":\"cus\",\"id\":" ++
    "\"sub\",\"status\":\"active\",\"items\":\x7b\"data\":[\x7b\"price\":\x7b\"lookup_key\":\"disk_pro\"\x7d\x7d]" ++
    "\x7d\x7d\x7d\x7d").toList

/-- The reader, on that body. -/
def readStripeBody (body : Text) : Option StripeEnvelope :=
  if body = stripeBody then
    some ⟨"customer.subscription.updated".toList,
      "cus".toList, "sub".toList, "active".toList, [some "disk_pro".toList]⟩
  else none

/-- The HMAC of the body at second 1000. -/
def stripeHmac (key message : Bytes) : Bytes :=
  if key = utf8 stripeSecret ∧ message = utf8 (signedText 1000 (utf8 stripeBody)) then
    [62, 104, 89, 47, 112, 110, 251, 224, 238, 158, 72, 54, 237, 95, 21, 34, 232, 208, 79, 146, 206, 42, 59, 151,
      222, 55, 99, 197, 154, 97, 113, 2]
  else []

def stripeDeps : StripeDeps where
  hmac := stripeHmac
  encodeJwt _ claims := some claims.sub
  urlencode := id
  envelopeFromStr := readStripeBody

/-- The plan that the body is about. -/
def stripeUpgrade : StripeSubscriptionEvent :=
  ⟨"customer.subscription.updated".toList, "cus".toList, "sub".toList, .pro⟩

def signedConfig : StripeConfig := ⟨.stripe, some stripeSecret, 300, true⟩

/-- The webhook arrives four minutes after it was signed. -/
def signedRequest : StripeRequest where
  signature := some (formatDiskSignatureHeader 1000
    (computeV1Signature stripeDeps.toDeps stripeSecret 1000 (utf8 stripeBody)))
  body := utf8 stripeBody
  now := 1240

/-- The provider signed one body. -/
def SignedOnce (t : ℤ) (body : Text) : Prop := t = 1000 ∧ body = stripeBody

/-- The header is read back. -/
theorem parse_signedRequest : parseStripeHeader (formatDiskSignatureHeader 1000
    (computeV1Signature stripeDeps.toDeps stripeSecret 1000 (utf8 stripeBody))) =
      .ok (1000, [computeV1Signature stripeDeps.toDeps stripeSecret 1000 (utf8 stripeBody)]) := by
  have hhmac : stripeHmac (utf8 stripeSecret) (utf8 (signedText 1000 (utf8 stripeBody))) ≠ [] := by
    rw [stripeHmac, if_pos ⟨rfl, rfl⟩]
    exact List.cons_ne_nil _ _
  exact parseStripeHeader_format (by decide) (by decide) (isPlain_hex _) (hex_ne_nil hhmac)

theorem unforged_signedRequest : Unforged stripeDeps stripeSecret SignedOnce signedRequest := by
  intro header t sigs hheader hread _
  cases hheader
  cases parse_signedRequest.symm.trans hread
  exact ⟨1000, stripeBody, ⟨rfl, rfl⟩, by rw [signedRequest]⟩

theorem admit_signedRequest : admitRequest stripeDeps signedConfig signedRequest = .ok stripeUpgrade := by
  refine admitRequest_eq_ok_iff.mpr ⟨rfl, ?_, stripeBody, by rw [signedRequest], ?_⟩
  · have hsecret : stripeSecret ≠ [] := List.cons_ne_nil _ _
    have hskew : checkTimestampSkew 1240 1000 300 = .ok () := rfl
    have hverify := verifyStripe_eq_ok_iff.mpr ⟨hsecret, 1000, _, parse_signedRequest, hskew,
      List.mem_singleton_self _⟩
    have hrequest : verifyRequest stripeDeps signedConfig signedRequest =
        (verifyStripeWebhookSignature stripeDeps.toDeps 1240 (formatDiskSignatureHeader 1000
          (computeV1Signature stripeDeps.toDeps stripeSecret 1000 (utf8 stripeBody))) (utf8 stripeBody)
            stripeSecret 300).mapError fun _ => .badRequest := by
      rw [verifyRequest, signedConfig, signedRequest]
    rw [hrequest, hverify]
    rfl
  · rw [parseStripeSubscriptionEvent, stripeDeps]
    dsimp only
    rw [readStripeBody, if_pos rfl]
    decide +kernel

/-- The law at work: the webhook is accepted, and it is the one that the provider signed. -/
theorem stripeLaw_signedRequest :
    applied stripeDeps signedConfig (.webhook signedRequest true) = some stripeUpgrade ∧
    ∃ t body, SignedOnce t body ∧ signedRequest.body = utf8 body ∧
      min |signedRequest.now - t| (2 ^ 63 - 1) ≤ 300 := by
  have happlied : applied stripeDeps signedConfig (.webhook signedRequest true) = some stripeUpgrade :=
    applied_webhook_eq_some_iff.mpr ⟨rfl, admit_signedRequest⟩
  have hlaw := @stripeLaw stripeDeps signedConfig ∅ [.webhook signedRequest true]
  obtain ⟨t, body, hsigned, hbody, -, hage⟩ := hlaw.signed stripeSecret SignedOnce rfl
    (fun r persist hmem => by cases List.mem_singleton.mp hmem; exact unforged_signedRequest)
    signedRequest true _ (List.mem_singleton_self _) happlied
  exact ⟨happlied, t, body, hsigned, hbody, hage⟩

end DiskArcana.Webhooks
