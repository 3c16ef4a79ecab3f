import DiskArcana.Accounts.Routes
import DiskArcana.Lib.Json
import DiskArcana.Lib.Outbox
import DiskArcana.Webhooks.Signature

/-!
# Webhooks for agents

Owners of a vault register webhooks for events in it (`agents/routes.rs`). Whoever causes such an event puts
a job into a bounded queue. One background loop takes the jobs (`agents/dispatch.rs`): it looks up the
webhooks for the event and posts to each in turn, three times at most, a signed envelope.

Requests come in authenticated or refused; what they do to accounts and vaults is left open, so that the
tables of `Database` change in any way between the steps modelled here. The loop draws the identifiers and
times of its envelopes when it takes a job.
-/

namespace DiskArcana.Webhooks

open DiskArcana.Lib DiskArcana.Lib.Text DiskArcana.Accounts

/-! ## The table -/

/-- A row of `agent_webhooks`, with `events_json` as the list it holds. -/
structure AgentWebhookRow where
  id : Text
  tenantId : Option Text
  vaultId : Text
  url : Text
  signingSecret : Option Text
  events : List Text
  label : Option Text
  enabled : Bool
  createdAt : ℤ
  deriving DecidableEq

/-- Source: `meta_db/agents.rs`, `AgentWebhookDeliveryTarget` -/
structure AgentWebhookDeliveryTarget where
  id : Text
  url : Text
  signingSecret : Text
  deriving DecidableEq

/-- The identifiers of rows are different.
Source: `meta_db/agents.rs`, `insert_agent_webhook`; `020_agent_api.sql` -/
def insertAgentWebhook (rows : List AgentWebhookRow) (row : AgentWebhookRow) : Option (List AgentWebhookRow) :=
  if row.id ∈ rows.map AgentWebhookRow.id then none else some (rows ++ [row])

/-- Source: `meta_db/agents.rs`, `delete_agent_webhook` -/
def deleteAgentWebhook (rows : List AgentWebhookRow) (tenantId : Option Text) (webhookId : Text) :
    List AgentWebhookRow × Bool :=
  (rows.filter fun r => ¬ (r.tenantId = tenantId ∧ r.id = webhookId),
    rows.any fun r => r.tenantId = tenantId ∧ r.id = webhookId)

/-- The row as a target for the event. -/
def AgentWebhookRow.target (tenantId : Option Text) (vaultId event : Text) (r : AgentWebhookRow) :
    Option AgentWebhookDeliveryTarget :=
  if r.tenantId = tenantId ∧ r.vaultId = vaultId ∧ r.enabled = true ∧ event ∈ r.events then
    (r.signingSecret.filter fun secret => secret ≠ []).map fun secret => ⟨r.id, r.url, secret⟩
  else none

/-- Enabled webhooks for a tenant/vault that subscribe to `event`.
Source: `meta_db/agents.rs`, `list_agent_webhooks_for_event` -/
def listAgentWebhooksForEvent (rows : List AgentWebhookRow) (tenantId : Option Text) (vaultId event : Text) :
    List AgentWebhookDeliveryTarget :=
  rows.filterMap (AgentWebhookRow.target tenantId vaultId event)

/-! ## Registering -/

/-- Source: `agents/routes.rs`, `ALLOWED_WEBHOOK_EVENTS` -/
def allowedWebhookEvents : List Text :=
  ["sync.file_changed".toList, "sync.file_deleted".toList, "agent.write_ok".toList,
    "agent.write_conflict".toList, "embeddings.stale".toList]

/-- Source: `agents/routes.rs`, `validate_events` -/
def validateEvents (events : List Text) : Except String Unit :=
  if events = [] then .error "events required"
  else if ∃ event ∈ events, event ∉ allowedWebhookEvents then .error "invalid event name"
  else .ok ()

/-- Source: `agents/routes.rs`, `validate_webhook_url` -/
def validateWebhookUrl (url : Text) : Except String Unit :=
  if ¬ "https://".toList <+: url then .error "webhook url must use https"
  else if (utf8 url).length < 12 then .error "invalid url"
  else .ok ()

/-- Source: `sharing/access.rs`, `require_write` -/
def requireWrite (access : ResolvedVaultAccess) : Answer Unit :=
  if access.kind = .owner ∨ access.kind = .editor then .ok () else .error (.forbidden, "write access denied")

/-- Source: `sharing/access.rs`, `require_manage` -/
def requireManage (access : ResolvedVaultAccess) : Answer Unit :=
  if access.kind = .owner then .ok () else .error (.forbidden, "manage access denied")

/-- Which queries of a request the database answers. -/
structure WebhookHealth where
  vault : Bool
  member : Bool
  webhooks : Bool

/-- Source: `agents/routes.rs`, `assert_vault_manager` -/
def assertVaultManager (db : Database) (user : UserAccount) (vaultId : Text) (health : WebhookHealth) :
    Answer Unit := do
  let access ← resolveVaultAccess db user vaultId health.vault health.member
  requireManage access

/-- Source: `agents/routes.rs`, `RegisterWebhookRequest` -/
structure RegisterWebhookRequest where
  vaultId : Text
  url : Text
  events : List Text
  label : Option Text

/-- Source: `agents/routes.rs`, `RegisterWebhookResponse` -/
structure RegisterWebhookResponse where
  webhookId : Text
  vaultId : Text
  url : Text
  events : List Text
  webhookSecret : Text

/-- What registering draws: eight random bytes, thirty-two more, and the time. -/
structure WebhookDraw where
  id : Bytes
  secret : Bytes
  now : ℤ

/-- Source: `agents/routes.rs`, `new_webhook_id` -/
def newWebhookId (draw : WebhookDraw) : Text := "awh_".toList ++ hex draw.id

/-- Source: `agents/routes.rs`, `issue_webhook_secret` -/
def issueWebhookSecret (draw : WebhookDraw) : Text := "whsec_".toList ++ hex draw.secret

/-- The row of a request. -/
def webhookRow (user : UserAccount) (body : RegisterWebhookRequest) (draw : WebhookDraw) : AgentWebhookRow where
  id := newWebhookId draw
  tenantId := some user.tenantId
  vaultId := body.vaultId
  url := body.url
  signingSecret := some (issueWebhookSecret draw)
  events := body.events
  label := body.label
  enabled := true
  createdAt := draw.now

/-- What is checked before a webhook is registered.
Source: `agents/routes.rs`, `register_webhook_inner` -/
def admitWebhook (db : Database) (auth : Answer UserAccount) (body : RegisterWebhookRequest)
    (health : WebhookHealth) : Answer UserAccount := do
  (validateWebhookUrl body.url).mapError fun msg => (StatusCode.badRequest, msg)
  (validateEvents body.events).mapError fun msg => (StatusCode.badRequest, msg)
  let user ← auth
  assertVaultManager db user body.vaultId health
  return user

/-- Source: `agents/routes.rs`, `register_webhook_inner` -/
def registerWebhookInner (db : Database) (rows : List AgentWebhookRow) (auth : Answer UserAccount)
    (body : RegisterWebhookRequest) (draw : WebhookDraw) (health : WebhookHealth) :
    Answer RegisterWebhookResponse × List AgentWebhookRow :=
  match admitWebhook db auth body health with
  | .error e => (.error e, rows)
  | .ok user =>
    match if health.webhooks then insertAgentWebhook rows (webhookRow user body draw) else none with
    | none => (.error (.internalServerError, "database error"), rows)
    | some rows' => (.ok ⟨newWebhookId draw, body.vaultId, body.url, body.events, issueWebhookSecret draw⟩, rows')

/-- Source: `agents/routes.rs`, `delete_webhook_inner` -/
def deleteWebhookInner (rows : List AgentWebhookRow) (auth : Answer UserAccount) (webhookId : Text)
    (health : WebhookHealth) : Answer Text × List AgentWebhookRow :=
  match auth with
  | .error e => (.error e, rows)
  | .ok user =>
    if health.webhooks then
      if (deleteAgentWebhook rows (some user.tenantId) webhookId).2 then
        (.ok webhookId, (deleteAgentWebhook rows (some user.tenantId) webhookId).1)
      else (.error (.notFound, "webhook not found"), (deleteAgentWebhook rows (some user.tenantId) webhookId).1)
    else (.error (.internalServerError, "database error"), rows)

/-! ## Jobs -/

/-- The payload is written JSON.
Source: `agents/dispatch.rs`, `AgentWebhookJob` -/
structure AgentWebhookJob where
  tenantId : Option Text
  vaultId : Text
  event : Text
  payload : Text
  deriving DecidableEq

/-- Source: `agents/routes.rs`, `EmbeddingsStaleReportRequest` -/
structure EmbeddingsStaleReportRequest where
  vaultId : Text
  share : Text
  fresh : ℕ
  stale : ℕ
  missing : ℕ
  paths : List (Text × Text)

/-- Objects are written with their fields in alphabetical order.
Source: `agents/dispatch.rs`, `embeddings_stale_payload` -/
def embeddingsStalePayload (body : EmbeddingsStaleReportRequest) : Text :=
  Json.object
    [("fresh".toList, Json.nat body.fresh), ("missing".toList, Json.nat body.missing),
      ("paths".toList, Json.array (body.paths.map fun p =>
        Json.object [("path".toList, Json.string p.1), ("status".toList, Json.string p.2)])),
      ("share".toList, Json.string body.share), ("stale".toList, Json.nat body.stale)]

/-- The answer says whether a job was put into the queue; the job is the other component.
Source: `agents/routes.rs`, `report_embeddings_stale_inner` -/
def reportEmbeddingsStaleInner (db : Database) (auth : Answer UserAccount) (body : EmbeddingsStaleReportRequest)
    (health : WebhookHealth) : Answer (Option AgentWebhookJob) :=
  if trim body.share = [] then .error (.badRequest, "share required")
  else do
    let user ← auth
    let access ← resolveVaultAccess db user body.vaultId health.vault health.member
    requireWrite access
    if body.stale > 0 ∨ body.missing > 0 then
      return some ⟨access.dataTenant, body.vaultId, "embeddings.stale".toList, embeddingsStalePayload body⟩
    else return none

/-! ## Delivering -/

/-- Source: `agents/dispatch.rs`, `CHANNEL_CAP` -/
def channelCap : ℕ := 512

/-- Source: `agents/dispatch.rs`, `MAX_RETRIES` -/
def maxRetries : ℕ := 3

/-- A time in seconds since the epoch, as `unix_now_secs` gives it. -/
abbrev Seconds := Fin (2 ^ 63)

/-- What an envelope draws: sixteen random bytes, and the time twice. -/
structure EnvelopeDraw where
  id : Bytes
  createdAt : Seconds
  timestamp : Seconds

/-- A job for one of its webhooks. -/
structure Delivery where
  job : AgentWebhookJob
  target : AgentWebhookDeliveryTarget
  draw : EnvelopeDraw

/-- Source: `agents/dispatch.rs`, `WebhookEnvelope` -/
def Delivery.envelope (d : Delivery) : Text :=
  Json.object
    [("id".toList, Json.string ("evt_".toList ++ hex d.draw.id)), ("event".toList, Json.string d.job.event),
      ("created_at".toList, Json.nat d.draw.createdAt), ("vault_id".toList, Json.string d.job.vaultId),
      ("data".toList, d.job.payload)]

/-- A request that is sent, without the headers that are always the same. -/
structure Post where
  url : Text
  signature : Text
  event : Text
  webhookId : Text
  body : Bytes

/-- Source: `agents/dispatch.rs`, `deliver_one` -/
def deliverOne (deps : Deps) (d : Delivery) : Post where
  url := d.target.url
  signature := formatDiskSignatureHeader d.draw.timestamp.1
    (computeDiskWebhookSignature deps d.target.signingSecret d.draw.timestamp.1 (utf8 d.envelope))
  event := d.job.event
  webhookId := d.target.id
  body := utf8 d.envelope

/-- The deliveries of a job: none where the lookup fails.
Source: `agents/dispatch.rs`, `delivery_loop` -/
def deliveries (rows : List AgentWebhookRow) (lookup : Bool) (draws : ℕ → EnvelopeDraw) (job : AgentWebhookJob) :
    List Delivery :=
  if lookup then
    (listAgentWebhooksForEvent rows job.tenantId job.vaultId job.event).mapIdx fun i target => ⟨job, target, draws i⟩
  else []

/-! ## Runs -/

structure WebhookState where
  db : Database
  webhooks : List AgentWebhookRow
  outbox : Outbox AgentWebhookJob Delivery

inductive WebhookEvent where
  /-- Accounts and vaults change in any way. -/
  | accounts (db : Database)
  | register (auth : Answer UserAccount) (body : RegisterWebhookRequest) (draw : WebhookDraw)
      (health : WebhookHealth)
  | delete (auth : Answer UserAccount) (webhookId : Text) (health : WebhookHealth)
  | report (auth : Answer UserAccount) (body : EmbeddingsStaleReportRequest) (health : WebhookHealth)
  /-- A write of an agent or a step of the synchronization has something to tell. -/
  | enqueue (job : AgentWebhookJob)
  /-- The next step of the loop: it takes a job, or sends a request that succeeds or not. -/
  | work (lookup : Bool) (draws : ℕ → EnvelopeDraw) (success : Bool)

/-- The job that an event puts into the queue. -/
def offered (s : WebhookState) : WebhookEvent → Option AgentWebhookJob
  | .report auth body health => (reportEmbeddingsStaleInner s.db auth body health).toOption.join
  | .enqueue job => some job
  | _ => none

/-- Fire-and-forget enqueue. Drops when the channel is full.
Source: `agents/dispatch.rs`, `AgentWebhookDispatcher::enqueue` -/
def WebhookState.enqueue (s : WebhookState) (job : Option AgentWebhookJob) : WebhookState :=
  { s with outbox := job.elim s.outbox fun job => s.outbox.offer channelCap job }

def webhookStep (s : WebhookState) : WebhookEvent → WebhookState
  | .accounts db => { s with db := db }
  | .register auth body draw health =>
    { s with webhooks := (registerWebhookInner s.db s.webhooks auth body draw health).2 }
  | .delete auth webhookId health => { s with webhooks := (deleteWebhookInner s.webhooks auth webhookId health).2 }
  | .work lookup draws success =>
    { s with outbox := s.outbox.work maxRetries (deliveries s.webhooks lookup draws) success }
  | .report auth body health => s.enqueue (offered s (.report auth body health))
  | .enqueue job => s.enqueue (some job)

end DiskArcana.Webhooks
