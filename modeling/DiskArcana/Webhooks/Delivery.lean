import DiskArcana.Lib.Trace
import DiskArcana.Webhooks.Model

/-!
# What becomes of webhook jobs

Along every run, from the start of the loop: every job is accepted or counted as dropped, the accepted jobs
are taken in their order, and each stands for one delivery to each webhook that the tenant of the job had for
the event in the vault when the job was taken, or for none if the lookup fails. A delivery is over after a
success or three failures, and the next begins only then. Every request carries a signature that the verifier
accepts, and goes to a webhook that an owner of the vault registered (`webhookLaw`). The loop gets through
whatever is in the queue.
-/

namespace DiskArcana.Webhooks

open DiskArcana.Lib DiskArcana.Lib.Text DiskArcana.Lib.Trace DiskArcana.Accounts

abbrev History := List (WebhookState × WebhookEvent)

/-! ## What a run has done -/

def offers (hist : History) : List AgentWebhookJob := hist.filterMap fun x => offered x.1 x.2

/-- The job that a step accepts. -/
def accepts (x : WebhookState × WebhookEvent) : Option AgentWebhookJob :=
  (offered x.1 x.2).bind fun job => x.1.outbox.accepted channelCap job

/-- The job that a step of the loop takes. -/
def takes (x : WebhookState × WebhookEvent) : Option AgentWebhookJob :=
  match x.2 with
  | .work _ _ _ => x.1.outbox.taken
  | _ => none

/-- The deliveries that a job stands for once it is taken. -/
def assigned (x : WebhookState × WebhookEvent) : List Delivery :=
  match x.2 with
  | .work lookup draws _ => x.1.outbox.taken.toList.flatMap (deliveries x.1.webhooks lookup draws)
  | _ => []

/-- The request that a step sends, and whether it succeeds. -/
def sends (x : WebhookState × WebhookEvent) : Option (Delivery × Bool) :=
  match x.2 with
  | .work _ _ success => x.1.outbox.sent success
  | _ => none

/-- A user registers a webhook as the row says, for a vault of the user's tenant. -/
def Registers (x : WebhookState × WebhookEvent) (row : AgentWebhookRow) : Prop :=
  ∃ user body draw health, x.2 = .register (.ok user) body draw health ∧ row = webhookRow user body draw ∧
    (some user.tenantId, body.vaultId) ∈ x.1.db.vaults ∧ "https://".toList <+: body.url ∧
    ∀ event ∈ body.events, event ∈ allowedWebhookEvents

/-- A webhook for the job, as the table has it. -/
structure Subscribed (s : WebhookState) (row : AgentWebhookRow) (job : AgentWebhookJob) : Prop where
  mem : row ∈ s.webhooks
  tenant : row.tenantId = job.tenantId
  vault : row.vaultId = job.vaultId
  enabled : row.enabled = true
  event : job.event ∈ row.events

/-- What becomes of jobs along a run. -/
structure WebhookLaw (deps : Deps) (s₀ : WebhookState) (hist : History) (s : WebhookState) : Prop where
  /-- A job that is offered is accepted or counted as dropped, no accepted one is taken twice, and they keep
  their order. -/
  accounts : ∃ done, s.outbox.Accounts channelCap maxRetries (offers hist) (hist.filterMap accepts)
    (hist.filterMap takes) (hist.flatMap assigned) (hist.filterMap sends) done
  /-- A request is for a webhook that was there when the job was taken, and the receiver can verify it. -/
  requests : ∀ d success, (d, success) ∈ hist.filterMap sends →
    (∃ x ∈ hist, takes x = some d.job ∧ ∃ row, Subscribed x.1 row d.job ∧
      d.target.id = row.id ∧ d.target.url = row.url ∧ some d.target.signingSecret = row.signingSecret) ∧
    ∀ now tolerance : ℤ, 0 ≤ now → now < 2 ^ 63 → |now - (d.draw.timestamp.1 : ℤ)| ≤ tolerance →
      verifyDiskWebhookSignature deps now (deliverOne deps d).signature (deliverOne deps d).body
        d.target.signingSecret tolerance = .ok d.draw.timestamp.1
  /-- Webhooks are registered for vaults of the tenant of their user. -/
  registered : ∀ row ∈ s.webhooks, row ∈ s₀.webhooks ∨ ∃ x ∈ hist, Registers x row
  /-- The loop gets through what is in the queue. -/
  drains : ∀ moves : List (Bool × (ℕ → EnvelopeDraw) × Bool),
    s.outbox.load maxRetries s.webhooks.length ≤ moves.length →
      (run webhookStep s (moves.map fun m => .work m.1 m.2.1 m.2.2)).outbox.queue = [] ∧
        (run webhookStep s (moves.map fun m => .work m.1 m.2.1 m.2.2)).outbox.pending = []

/-! ## Webhooks of an event -/

variable {rows : List AgentWebhookRow} {row : AgentWebhookRow} {job : AgentWebhookJob}

theorem target_eq_some {tenantId : Option Text} {vaultId event : Text} {target : AgentWebhookDeliveryTarget} :
    row.target tenantId vaultId event = some target ↔
      (row.tenantId = tenantId ∧ row.vaultId = vaultId ∧ row.enabled = true ∧ event ∈ row.events) ∧
        target.signingSecret ≠ [] ∧ row.signingSecret = some target.signingSecret ∧ target.id = row.id ∧
          target.url = row.url := by
  unfold AgentWebhookRow.target
  split_ifs with hrow
  · rw [Option.map_eq_some_iff]
    constructor
    · rintro ⟨secret, hsecret, rfl⟩
      rw [Option.filter_eq_some_iff] at hsecret
      exact ⟨hrow, by simpa using hsecret.2, hsecret.1, rfl, rfl⟩
    · rintro ⟨-, hne, hsecret, hid, hurl⟩
      refine ⟨target.signingSecret, ?_, ?_⟩
      · rw [Option.filter_eq_some_iff]
        exact ⟨hsecret, by simpa using hne⟩
      · rw [← hid, ← hurl]
  · constructor
    · intro h
      cases h
    · intro h
      exact absurd h.1 hrow

/-- The deliveries of a job are for the webhooks of its event. -/
theorem of_mem_deliveries {lookup : Bool} {draws : ℕ → EnvelopeDraw} {d : Delivery}
    (h : d ∈ deliveries rows lookup draws job) : d.job = job ∧
      d.target ∈ listAgentWebhooksForEvent rows job.tenantId job.vaultId job.event := by
  unfold deliveries at h
  split_ifs at h with hlookup
  · obtain ⟨i, hi, rfl⟩ := List.mem_mapIdx.mp h
    exact ⟨rfl, List.getElem_mem hi⟩
  · cases h

variable (rows) in
theorem length_deliveries_le (lookup : Bool) (draws : ℕ → EnvelopeDraw) (job : AgentWebhookJob) :
    (deliveries rows lookup draws job).length ≤ rows.length := by
  unfold deliveries
  split_ifs
  · rw [List.length_mapIdx]
    exact List.length_filterMap_le _ _
  · exact Nat.zero_le _

/-! ## Registering -/

theorem of_validateEvents {events : List Text} (h : validateEvents events = .ok ()) :
    ∀ event ∈ events, event ∈ allowedWebhookEvents := by
  unfold validateEvents at h
  split_ifs at h with hnil hother
  intro event hevent
  by_contra hnot
  exact hother ⟨event, hevent, hnot⟩

theorem of_validateWebhookUrl {url : Text} (h : validateWebhookUrl url = .ok ()) : "https://".toList <+: url := by
  unfold validateWebhookUrl at h
  split_ifs at h with hhttps
  exact hhttps

/-- Only owners of a vault manage it. -/
theorem of_assertVaultManager {db : Database} {user : UserAccount} {vaultId : Text} {health : WebhookHealth}
    (h : assertVaultManager db user vaultId health = .ok ()) : (some user.tenantId, vaultId) ∈ db.vaults := by
  unfold assertVaultManager at h
  rcases haccess : resolveVaultAccess db user vaultId health.vault health.member with e | access
  · rw [haccess] at h
    cases h
  · rw [haccess] at h
    change requireManage access = .ok () at h
    unfold requireManage at h
    split_ifs at h with howner
    unfold resolveVaultAccess at haccess
    split_ifs at haccess with hvault hexists hmember
    · exact of_decide_eq_true hexists
    · rcases hcollab : db.getCollaboratorVaultAccess user.id vaultId with _ | ⟨tenant, role⟩
      · rw [hcollab] at haccess
        cases haccess
      · rw [hcollab] at haccess
        cases haccess
        cases role <;> cases howner

/-- A webhook is admitted for a user who owns the vault. -/
theorem of_admitWebhook {db : Database} {auth : Answer UserAccount} {body : RegisterWebhookRequest}
    {health : WebhookHealth} {user : UserAccount} (h : admitWebhook db auth body health = .ok user) :
    auth = .ok user ∧ (some user.tenantId, body.vaultId) ∈ db.vaults ∧ "https://".toList <+: body.url ∧
      ∀ event ∈ body.events, event ∈ allowedWebhookEvents := by
  unfold admitWebhook at h
  rcases hurl : validateWebhookUrl body.url with e | ⟨⟩
  · rw [hurl] at h
    cases h
  rcases hevents : validateEvents body.events with e | ⟨⟩
  · rw [hurl, hevents] at h
    cases h
  rcases auth with e | user'
  · rw [hurl, hevents] at h
    cases h
  rcases hmanager : assertVaultManager db user' body.vaultId health with e | ⟨⟩
  · rw [hurl, hevents] at h
    change (do
      assertVaultManager db user' body.vaultId health
      return user') = Except.ok user at h
    rw [hmanager] at h
    cases h
  · rw [hurl, hevents] at h
    change (do
      assertVaultManager db user' body.vaultId health
      return user') = Except.ok user at h
    rw [hmanager] at h
    cases h
    exact ⟨rfl, of_assertVaultManager hmanager, of_validateWebhookUrl hurl, of_validateEvents hevents⟩

/-- A row of the table after a step was there before, or is registered by it. -/
theorem mem_webhooks_step {s : WebhookState} {e : WebhookEvent} (h : row ∈ (webhookStep s e).webhooks) :
    row ∈ s.webhooks ∨ Registers (s, e) row := by
  cases e with
  | accounts db => exact .inl h
  | report auth body health => exact .inl h
  | enqueue job => exact .inl h
  | work lookup draws success => exact .inl h
  | delete auth webhookId health =>
      left
      change row ∈ (deleteWebhookInner s.webhooks auth webhookId health).2 at h
      unfold deleteWebhookInner at h
      rcases auth with e | user
      · exact h
      · dsimp only at h
        split_ifs at h
        · exact List.mem_of_mem_filter h
        · exact List.mem_of_mem_filter h
        · exact h
  | register auth body draw health =>
      change row ∈ (registerWebhookInner s.db s.webhooks auth body draw health).2 at h
      unfold registerWebhookInner at h
      rcases hadmitted : admitWebhook s.db auth body health with e | user
      · rw [hadmitted] at h
        exact .inl h
      · rw [hadmitted] at h
        obtain ⟨rfl, hvault, hurl, hevents⟩ := of_admitWebhook hadmitted
        rcases hinsert : (if health.webhooks then insertAgentWebhook s.webhooks (webhookRow user body draw)
          else none) with _ | rows'
        · simp only [hinsert] at h
          exact .inl h
        · simp only [hinsert] at h
          split_ifs at hinsert with hdb
          unfold insertAgentWebhook at hinsert
          split_ifs at hinsert with htaken
          cases hinsert
          rcases List.mem_append.mp h with hold | hnew
          · exact .inl hold
          · exact .inr ⟨user, body, draw, health, rfl, List.mem_singleton.mp hnew, hvault, hurl, hevents⟩

/-! ## Along a run -/

/-- The accounts of a run. -/
def Counted (hist : History) (s : WebhookState) : Prop :=
  ∃ done, s.outbox.Accounts channelCap maxRetries (offers hist) (hist.filterMap accepts)
    (hist.filterMap takes) (hist.flatMap assigned) (hist.filterMap sends) done

theorem counted_snoc {hist : History} {x : WebhookState × WebhookEvent} {s : WebhookState} :
    Counted (hist ++ [x]) s ↔
      ∃ done, s.outbox.Accounts channelCap maxRetries (offers hist ++ (offered x.1 x.2).toList)
        (hist.filterMap accepts ++ (accepts x).toList) (hist.filterMap takes ++ (takes x).toList)
        (hist.flatMap assigned ++ assigned x) (hist.filterMap sends ++ (sends x).toList) done := by
  unfold Counted offers
  rw [filterMap_snoc, filterMap_snoc, filterMap_snoc, filterMap_snoc, List.flatMap_append, List.flatMap_singleton]

/-- A step that neither offers a job nor is one of the loop. -/
theorem Counted.frame {hist : History} {s s' : WebhookState} {e : WebhookEvent} (h : Counted hist s)
    (houtbox : s'.outbox = s.outbox) (hoffer : offered s e = none) (htake : takes (s, e) = none)
    (hassign : assigned (s, e) = []) (hsend : sends (s, e) = none) : Counted (hist ++ [(s, e)]) s' := by
  have haccept : accepts (s, e) = none := by rw [accepts, hoffer]; rfl
  rw [counted_snoc, houtbox, hoffer, haccept, htake, hassign, hsend]
  simpa [Counted] using h

/-- A step that offers a job, or none. -/
theorem Counted.enqueue {hist : History} {s : WebhookState} {e : WebhookEvent} (h : Counted hist s)
    (htake : takes (s, e) = none) (hassign : assigned (s, e) = []) (hsend : sends (s, e) = none) :
    Counted (hist ++ [(s, e)]) (s.enqueue (offered s e)) := by
  rcases hoffer : offered s e with _ | job
  · exact h.frame rfl hoffer htake hassign hsend
  · obtain ⟨done, hdone⟩ := h
    have haccept : accepts (s, e) = s.outbox.accepted channelCap job := by rw [accepts, hoffer]; rfl
    rw [counted_snoc, hoffer, haccept, htake, hassign, hsend]
    refine ⟨done, ?_⟩
    show (s.outbox.offer channelCap job).Accounts _ _ _ _ _ _ _ _
    simpa using hdone.offer job

theorem counted_step {hist : History} {s : WebhookState} (e : WebhookEvent) (h : Counted hist s) :
    Counted (hist ++ [(s, e)]) (webhookStep s e) := by
  cases e with
  | accounts db => exact h.frame rfl rfl rfl rfl rfl
  | register auth body draw health => exact h.frame rfl rfl rfl rfl rfl
  | delete auth webhookId health => exact h.frame rfl rfl rfl rfl rfl
  | report auth body health => exact h.enqueue rfl rfl rfl
  | enqueue job => exact h.enqueue rfl rfl rfl
  | work lookup draws success =>
      obtain ⟨done, hdone⟩ := h
      obtain ⟨done', hstep⟩ := hdone.work (deliveries s.webhooks lookup draws) success
      have hoffer : offered s (.work lookup draws success) = none := rfl
      have haccept : accepts (s, .work lookup draws success) = none := rfl
      rw [counted_snoc, hoffer, haccept, Option.toList_none, List.append_nil, List.append_nil]
      exact ⟨done', hstep⟩

/-- Deliveries are for webhooks that were there when their job was taken. -/
theorem of_mem_assigned {x : WebhookState × WebhookEvent} {d : Delivery} (h : d ∈ assigned x) :
    takes x = some d.job ∧ ∃ row, Subscribed x.1 row d.job ∧ d.target.id = row.id ∧ d.target.url = row.url ∧
      some d.target.signingSecret = row.signingSecret ∧ d.target.signingSecret ≠ [] := by
  obtain ⟨s, e⟩ := x
  cases e with
  | work lookup draws success =>
      obtain ⟨job, hjob, hd⟩ := List.mem_flatMap.mp h
      obtain ⟨rfl, htarget⟩ := of_mem_deliveries hd
      refine ⟨Option.mem_toList.mp hjob, ?_⟩
      obtain ⟨row, hrow, hsome⟩ := List.mem_filterMap.mp htarget
      obtain ⟨⟨htenant, hvault, henabled, hevent⟩, hne, hsecret, hid, hurl⟩ := target_eq_some.mp hsome
      exact ⟨row, ⟨hrow, htenant, hvault, henabled, hevent⟩, hid, hurl, hsecret.symm, hne⟩
  | accounts db => cases h
  | register auth body draw health => cases h
  | delete auth webhookId health => cases h
  | report auth body health => cases h
  | enqueue job => cases h

/-- A request of the server is verified in time. -/
theorem verify_deliverOne {deps : Deps} (hhmac : ∀ key message, (deps.hmac key message).length = 32) {d : Delivery}
    (hsecret : d.target.signingSecret ≠ []) {now tolerance : ℤ} (hpast : 0 ≤ now) (hfuture : now < 2 ^ 63)
    (htolerance : |now - (d.draw.timestamp.1 : ℤ)| ≤ tolerance) :
    verifyDiskWebhookSignature deps now (deliverOne deps d).signature (deliverOne deps d).body
      d.target.signingSecret tolerance = .ok d.draw.timestamp.1 := by
  have hne : deps.hmac (utf8 d.target.signingSecret)
      (utf8 (signedText d.draw.timestamp.1 (utf8 d.envelope))) ≠ [] := by
    intro hnil
    have hlength := hhmac (utf8 d.target.signingSecret) (utf8 (signedText d.draw.timestamp.1 (utf8 d.envelope)))
    rw [hnil] at hlength
    cases hlength
  have htime := d.draw.timestamp.2
  exact verifyDisk_format hsecret hne ⟨by omega, by omega⟩ ⟨hpast, hfuture⟩ htolerance

/-- Steps of the loop alone end with nothing left to do. -/
theorem drains_of_counted {hist : History} {s : WebhookState} (h : Counted hist s)
    (moves : List (Bool × (ℕ → EnvelopeDraw) × Bool))
    (hload : s.outbox.load maxRetries s.webhooks.length ≤ moves.length) :
    (run webhookStep s (moves.map fun m => .work m.1 m.2.1 m.2.2)).outbox.queue = [] ∧
      (run webhookStep s (moves.map fun m => .work m.1 m.2.1 m.2.2)).outbox.pending = [] := by
  induction moves generalizing hist s with
  | nil =>
      obtain ⟨done, hdone⟩ := h
      exact (Outbox.load_eq_zero_iff hdone.failed).mp (Nat.le_zero.mp hload)
  | cons m moves ih =>
      refine ih (counted_step (.work m.1 m.2.1 m.2.2) h) ?_
      obtain ⟨done, hdone⟩ := h
      rw [List.length_cons] at hload
      show (s.outbox.work maxRetries (deliveries s.webhooks m.1 m.2.1) m.2.2).load maxRetries
        s.webhooks.length ≤ moves.length
      by_cases hidle : s.outbox.load maxRetries s.webhooks.length = 0
      · obtain ⟨hqueue, hpending⟩ := (Outbox.load_eq_zero_iff hdone.failed).mp hidle
        rw [Outbox.work_idle hpending hqueue, hidle]
        exact Nat.zero_le _
      · have hless : (s.outbox.work maxRetries (deliveries s.webhooks m.1 m.2.1) m.2.2).load maxRetries
            s.webhooks.length < s.outbox.load maxRetries s.webhooks.length :=
          Outbox.load_work_lt hdone.failed hdone.fresh (length_deliveries_le s.webhooks m.1 m.2.1) hidle
        omega

/-- **What becomes of webhook jobs**, from the start of the loop with any table. -/
theorem webhookLaw {deps : Deps} (hhmac : ∀ key message, (deps.hmac key message).length = 32) (db : Database)
    (rows : List AgentWebhookRow) (es : List WebhookEvent) :
    WebhookLaw deps ⟨db, rows, .empty⟩ (history webhookStep ⟨db, rows, .empty⟩ es)
      (run webhookStep ⟨db, rows, .empty⟩ es) := by
  have hinvariant : Counted (history webhookStep ⟨db, rows, .empty⟩ es) (run webhookStep ⟨db, rows, .empty⟩ es) ∧
      ∀ row ∈ (run webhookStep ⟨db, rows, .empty⟩ es).webhooks,
        row ∈ rows ∨ ∃ x ∈ history webhookStep ⟨db, rows, .empty⟩ es, Registers x row := by
    refine invariant_history (I := fun hist s => Counted hist s ∧
      ∀ row ∈ s.webhooks, row ∈ rows ∨ ∃ x ∈ hist, Registers x row) ?_ ?_ es
    · exact ⟨⟨[], Outbox.accounts_empty (by decide)⟩, fun row hrow => .inl hrow⟩
    · rintro hist s e ⟨hcounted, hregistered⟩
      refine ⟨counted_step e hcounted, fun row hrow => ?_⟩
      rcases mem_webhooks_step hrow with hold | hnew
      · rcases hregistered row hold with hstart | ⟨x, hx, hregisters⟩
        · exact .inl hstart
        · exact .inr ⟨x, List.mem_append_left _ hx, hregisters⟩
      · exact .inr ⟨(s, e), List.mem_append_right _ (List.mem_singleton_self _), hnew⟩
  obtain ⟨hcounted, hregistered⟩ := hinvariant
  refine ⟨hcounted, ?_, hregistered, drains_of_counted hcounted⟩
  intro d success hsent
  obtain ⟨done, hdone⟩ := hcounted
  obtain ⟨x, hx, hassigned⟩ := List.mem_flatMap.mp (hdone.mem_due hsent)
  obtain ⟨htakes, row, hrow, hid, hurl, hsecret, hne⟩ := of_mem_assigned hassigned
  refine ⟨⟨x, hx, htakes, row, hrow, hid, hurl, hsecret⟩, ?_⟩
  intro now tolerance hpast hfuture htolerance
  exact verify_deliverOne hhmac hne hpast hfuture htolerance

/-- A user, the user's vault, and a webhook for it. -/
def sampleUser : UserAccount :=
  ⟨"u1".toList, "a@corp.test".toList, [], "corp".toList, true, none, none⟩

def sampleBody : RegisterWebhookRequest :=
  ⟨"wiki".toList, "https://agent.example/hook".toList, ["agent.write_ok".toList], none⟩

def sampleHmac (key message : Bytes) : Bytes := ((key ++ message).reverse ++ List.replicate 32 0).take 32

theorem length_sampleHmac (key message : Bytes) : (sampleHmac key message).length = 32 := by
  unfold sampleHmac
  rw [List.length_take, List.length_append, List.length_replicate]
  omega

def sampleDeps : Deps := ⟨sampleHmac, fun _ claims => some claims.sub, id⟩

/-- The webhook is registered, a job for it is offered and taken, and the first of two requests fails. -/
def sampleRun : List WebhookEvent :=
  let draw : EnvelopeDraw := ⟨[], 5, 5⟩
  [.register (.ok sampleUser) sampleBody ⟨[1], [2], 4⟩ ⟨true, true, true⟩,
    .enqueue ⟨some "corp".toList, "wiki".toList, "agent.write_ok".toList, "null".toList⟩,
    .work true (fun _ => draw) true, .work true (fun _ => draw) false, .work true (fun _ => draw) true]

def sampleVaults : Database := { Database.start ∅ with vaults := [(some "corp".toList, "wiki".toList)] }

theorem webhookLaw_sample : WebhookLaw sampleDeps ⟨sampleVaults, [], .empty⟩
      (history webhookStep ⟨sampleVaults, [], .empty⟩ sampleRun) (run webhookStep ⟨sampleVaults, [], .empty⟩ sampleRun) ∧
    ((history webhookStep ⟨sampleVaults, [], .empty⟩ sampleRun).filterMap sends).map Prod.snd = [false, true] :=
  ⟨webhookLaw length_sampleHmac sampleVaults [] sampleRun, by decide +kernel⟩

end DiskArcana.Webhooks
