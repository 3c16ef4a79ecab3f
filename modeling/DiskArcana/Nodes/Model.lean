import DiskArcana.Accounts.Routes
import DiskArcana.Acl.Loader
import DiskArcana.Hosting.Quota

/-!
# Registering nodes

`RegisterNode` of `services/auth.rs`. The nodes that may authenticate are in a map in memory; the
`nodes` table keeps them, and the map is read from it when the server starts. A call goes step by step
(`RegisterPhase`), with the steps of other calls in between: it is admitted, looks for the node in the
map, puts it there, and then updates the row of the node or inserts one.

The peer's certificate and what the database answers come with the step. A row of `nodes` that
`enroll` put there has no key yet.
-/

namespace DiskArcana.Nodes

open DiskArcana.Core DiskArcana.Lib
open DiskArcana.Accounts hiding Bytes

/-! ## Plans -/

/-- Source: `billing/tier.rs`, `PlanTier::limits` -/
def planLimits : PlanTier → Hosting.QuotaLimits
  | .free => ⟨5 * 1024 * 1024 * 1024, 2, 1⟩
  | .pro => ⟨100 * 1024 * 1024 * 1024, 10, 5⟩
  | .team => ⟨1024 * 1024 * 1024 * 1024, 50, 20⟩

/-- Source: `billing/mode.rs`, `BillingMode` -/
inductive BillingMode where
  | disabled
  | enforce
  | stripe

/-- Source: `billing/mode.rs`, `is_active` -/
def BillingMode.isActive : BillingMode → Bool
  | .enforce | .stripe => true
  | .disabled => false

/-- `tiers` is the table `tenant_billing`.
Source: `billing/enforcer.rs`, `QuotaEnforcer` -/
structure QuotaEnforcer where
  mode : BillingMode
  tiers : Table (Option Text) PlanTier
  defaultTier : PlanTier
  testLimits : Option Hosting.QuotaLimits

/-- Source: `billing/enforcer.rs`, `tier_and_limits`; `meta_db/billing.rs`, `get_plan_tier` -/
def QuotaEnforcer.limits (q : QuotaEnforcer) (tenant : Option Text) : Hosting.QuotaLimits :=
  q.testLimits.getD (planLimits ((q.tiers.lookup tenant).getD q.defaultTier))

/-! ## The store and the table -/

/-- Source: `auth/storage.rs`, `NodeEntry` -/
structure NodeEntry where
  apiKeyHash : Digest
  displayName : Text
  platform : Text
  registeredAt : ℤ
  tenantId : Option Text

/-- The nodes by their id.
Source: `auth/storage.rs`, `AuthStore` -/
abbrev AuthStore := Table Text NodeEntry

/-- Source: `auth/storage.rs`, `has_node` -/
def AuthStore.hasNode (store : AuthStore) (nodeId : Text) : Bool := (store.lookup nodeId).isSome

/-- Source: `auth/storage.rs`, `node_count` -/
def AuthStore.nodeCount (store : AuthStore) : ℕ := store.entries.length

/-- Source: `auth/storage.rs`, `node_tenant` -/
def AuthStore.nodeTenant (store : AuthStore) (nodeId : Text) : Option Text :=
  (store.lookup nodeId).bind NodeEntry.tenantId

/-- Source: `auth/storage.rs`, `hydrate_node` -/
def AuthStore.hydrateNode (store : AuthStore) (row : Text × NodeEntry) : AuthStore :=
  if store.hasNode row.1 then store else store.insert row.1 row.2

/-- A row of `nodes`.
Source: `disk-core/migrations/002_nodes.sql` -/
structure NodeRow where
  tenantId : Option Text
  displayName : Option Text
  platform : Option Text
  apiKeyHash : Bytes
  registeredAt : ℤ
  revoked : Bool

/-- The nodes that the server remembers: in memory, and in the table, where `node_id` is unique. -/
structure Server where
  store : AuthStore
  nodes : Table Text NodeRow

/-- The row as the map holds it, if its hash has the length of one.
Source: `meta_db/nodes.rs`, `list_active_auth_nodes` -/
def NodeRow.toEntry (row : NodeRow) : Option NodeEntry :=
  if h : row.apiKeyHash.length = 32 then
    some {
      apiKeyHash := ⟨row.apiKeyHash, h⟩
      displayName := row.displayName.getD []
      platform := row.platform.getD []
      registeredAt := row.registeredAt
      tenantId := row.tenantId.filter fun t => !t.isEmpty }
  else none

/-- `none` when a row that is not revoked has a hash of another length.
Source: `meta_db/nodes.rs`, `list_active_auth_nodes` -/
def listActiveAuthNodes (nodes : Table Text NodeRow) : Option (List (Text × NodeEntry)) :=
  let active := nodes.entries.filter fun e => !e.2.revoked
  (active.insertionSort fun a b => a.2.registeredAt ≤ b.2.registeredAt).mapM fun e =>
    e.2.toEntry.map fun entry => (e.1, entry)

/-- The map of a server that starts.
Source: `main.rs` -/
def hydrate (nodes : Table Text NodeRow) : Option AuthStore :=
  (listActiveAuthNodes nodes).map fun rows => rows.foldl AuthStore.hydrateNode ∅

/-! ## Admission -/

/-- Source: `config.rs`, `RegisterNodeMode` -/
inductive RegisterNodeMode where
  | open_
  | enrolled
  | disabled
  | admin

/-- What the service is wired with.
Source: `services/auth.rs`, `AuthServiceImpl` -/
structure AuthService where
  registerMode : RegisterNodeMode
  hasPool : Bool
  adminToken : Option Text
  quotaEnforcer : Option QuotaEnforcer

/-- The fields, the two headers and the certificate of a request. -/
structure RegisterRequest where
  nodeId : Text
  displayName : Text
  platform : Text
  tenantId : Text
  tenantHeader : Option Text
  adminHeader : Option Text
  cert : Option Acl.CertFingerprint

/-- What the outside answers to a step: whether a certificate is enrolled for the node, whether the
plan tier can be looked up, what each statement of `upsert_node_tenant` comes to, a fresh key, and the
clock. -/
structure StepAnswer where
  enrolled : Except Text Bool
  tier : Except Text Unit
  update : Except Text Unit
  insert : Except Text Unit
  key : Text
  now : ℤ

/-- Why a registration is refused, in the words of the status. -/
inductive RegisterError where
  | nodeIdEmpty
  | disabled
  | adminUnset
  | adminToken
  | noPool
  | noCertificate
  | gateDb (e : Text)
  | notEnrolled
  | billingLookup (e : Text)
  | nodeQuota (e : Hosting.QuotaError)
  | alreadyExists
  | persist (e : Text)

/-- Source: `services/auth.rs`, `register_node`; `auth/register_gate.rs`; `billing/enforcer.rs` -/
def RegisterError.toText : RegisterError → String
  | .nodeIdEmpty => "node_id must not be empty"
  | .disabled => "RegisterNode is disabled"
  | .adminUnset => "RegisterNode admin mode but DISK_ADMIN_TOKEN is unset"
  | .adminToken => "missing or invalid x-disk-admin-token"
  | .noPool => "RegisterNode enrolled mode requires SQLite pool"
  | .noCertificate => "mTLS client certificate required for RegisterNode"
  | .gateDb e => "db (register gate): " ++ String.ofList e
  | .notEnrolled => "RegisterNode requires enrolled mTLS certificate matching node_id"
  | .billingLookup e => "billing lookup: " ++ String.ofList e
  | .nodeQuota e => "node quota: " ++ e.toText
  | .alreadyExists => "node_id already registered"
  | .persist e => "persist node tenant: " ++ String.ofList e

/-- Source: `disk-core/src/tenant.rs`, `resolve_tenant_id` -/
def resolveTenantId (metadataHeader : Option Text) (protoField : Text) : Option Text :=
  match metadataHeader with
  | some t => if t.isEmpty then none else some t
  | none => if protoField.isEmpty then none else some protoField

/-- The tenant of a request. -/
def RegisterRequest.tenant (req : RegisterRequest) : Option Text :=
  resolveTenantId req.tenantHeader req.tenantId

/-- A tenant is never the empty text. -/
@[simp] theorem filter_tenant (req : RegisterRequest) :
    (req.tenant.filter fun t => !t.isEmpty) = req.tenant := by
  unfold RegisterRequest.tenant resolveTenantId
  rcases req.tenantHeader with _ | header
  · rcases req.tenantId with _ | ⟨c, rest⟩ <;> rfl
  · rcases header with _ | ⟨c, rest⟩ <;> rfl

/-- The node that a request names. -/
def RegisterRequest.node (req : RegisterRequest) : Text := trim req.nodeId

/-- Source: `auth/register_gate.rs`, `check_admin_metadata` -/
def checkAdminMetadata (adminHeader adminToken : Option Text) : Except RegisterError Unit :=
  match adminToken.filter fun s => !s.isEmpty with
  | none => .error .adminUnset
  | some expected => if adminHeader.getD [] = expected then .ok () else .error .adminToken

/-- Source: `auth/register_gate.rs`, `check_register_gate` and `verify_enrolled_register` -/
def checkRegisterGate (svc : AuthService) (a : StepAnswer) (req : RegisterRequest) :
    Except RegisterError Unit :=
  match svc.registerMode with
  | .open_ => .ok ()
  | .disabled => .error .disabled
  | .admin => checkAdminMetadata req.adminHeader svc.adminToken
  | .enrolled =>
    if !svc.hasPool then .error .noPool
    else if req.cert.isNone then .error .noCertificate
    else
      match a.enrolled with
      | .error e => .error (.gateDb e)
      | .ok true => .ok ()
      | .ok false => .error .notEnrolled

/-- Source: `billing/enforcer.rs`, `check_register_node` -/
def QuotaEnforcer.checkRegisterNode (q : QuotaEnforcer) (a : StepAnswer) (tenantHeader : Option Text)
    (activeNodes : ℕ) : Except RegisterError Unit :=
  if !q.mode.isActive then .ok ()
  else
    match a.tier with
    | .error e => .error (.billingLookup e)
    | .ok () =>
      let tenantId := tenantHeader.filter fun s => !s.isEmpty
      (Hosting.checkNodeCapacity activeNodes (q.limits tenantId)).mapError .nodeQuota

/-- Source: `services/auth.rs`, `register_node` (quota) -/
def checkQuota (svc : AuthService) (s : Server) (a : StepAnswer) (req : RegisterRequest) :
    Except RegisterError Unit :=
  match svc.quotaEnforcer with
  | none => .ok ()
  | some q =>
    if s.store.hasNode req.node then .ok ()
    else q.checkRegisterNode a req.tenant (s.store.nodeCount % 2 ^ 32)

/-- Source: `services/auth.rs`, `register_node` (up to the quota) -/
def admission (svc : AuthService) (s : Server) (a : StepAnswer) (req : RegisterRequest) :
    Except RegisterError Unit :=
  if req.node.isEmpty then .error .nodeIdEmpty
  else
    match checkRegisterGate svc a req with
    | .error e => .error e
    | .ok () => checkQuota svc s a req

/-! ## The steps of a call -/

/-- What a call does next. -/
inductive RegisterPhase where
  /-- The checks up to the quota. -/
  | arrived
  /-- Look for the node in the map. -/
  | admitted
  /-- Put it there, with a fresh key. -/
  | absent
  /-- Update the row of the node. -/
  | inserted (key : Text)
  /-- Insert a row. -/
  | notUpdated (key : Text)
  /-- Nothing: it has returned, with a key or with an error. -/
  | returned (result : Except RegisterError Text)
  /-- Nothing: the server stopped under it. -/
  | dropped

/-- A call of `RegisterNode`. -/
structure RegisterCall where
  request : RegisterRequest
  phase : RegisterPhase

section

variable (blake3 : Bytes → Digest)

/-- Source: `auth/api_key.rs`, `ApiKey::hash` -/
def keyHash (key : Text) : Digest := blake3 (utf8 key)

/-- Whether a key is that of a node.
Source: `auth/storage.rs`, `authenticate`; `auth/api_key.rs`, `ApiKey::verify` -/
def AuthStore.authed (store : AuthStore) (nodeId apiKey : Text) : Bool :=
  match store.lookup nodeId with
  | some entry => keyHash blake3 apiKey = entry.apiKeyHash
  | none => false

/-- The entry of a node that registers.
Source: `auth/storage.rs`, `register_node` -/
def RegisterRequest.entry (req : RegisterRequest) (key : Text) (now : ℤ) : NodeEntry where
  apiKeyHash := keyHash blake3 key
  displayName := trim req.displayName
  platform := trim req.platform
  registeredAt := now
  tenantId := req.tenant

/-- The row that the update leaves.
Source: `meta_db/nodes.rs`, `upsert_node_tenant` -/
def RegisterRequest.updatedRow (req : RegisterRequest) (key : Text) (row : NodeRow) : NodeRow :=
  { row with
    tenantId := req.tenant
    apiKeyHash := (keyHash blake3 key).toList
    displayName := some (trim req.displayName)
    platform := some (trim req.platform) }

/-- The row that is inserted.
Source: `meta_db/nodes.rs`, `upsert_node_tenant` -/
def RegisterRequest.newRow (req : RegisterRequest) (key : Text) (now : ℤ) : NodeRow where
  tenantId := req.tenant
  displayName := some (trim req.displayName)
  platform := some (trim req.platform)
  apiKeyHash := (keyHash blake3 key).toList
  registeredAt := now
  revoked := false

/-- The next step of a call, from its phase.
Source: `services/auth.rs`, `register_node`; `auth/storage.rs`, `register_node`;
`meta_db/nodes.rs`, `upsert_node_tenant` -/
def stepPhase (svc : AuthService) (s : Server) (a : StepAnswer) (req : RegisterRequest) :
    RegisterPhase → Server × RegisterPhase
  | .arrived =>
    match admission svc s a req with
    | .error e => (s, .returned (.error e))
    | .ok () => (s, .admitted)
  | .admitted =>
    if s.store.hasNode req.node then (s, .returned (.error .alreadyExists)) else (s, .absent)
  | .absent =>
    ({ s with store := s.store.insert req.node (req.entry blake3 a.key a.now) }, .inserted a.key)
  | .inserted key =>
    match a.update with
    | .error e => (s, .returned (.error (.persist e)))
    | .ok () =>
      match s.nodes.lookup req.node with
      | some row =>
        ({ s with nodes := s.nodes.insert req.node (req.updatedRow blake3 key row) },
          .returned (.ok key))
      | none => (s, .notUpdated key)
  | .notUpdated key =>
    match a.insert with
    | .error e => (s, .returned (.error (.persist e)))
    | .ok () =>
      if (s.nodes.lookup req.node).isSome then
        (s, .returned (.error (.persist "UNIQUE constraint failed: nodes.node_id".toList)))
      else
        ({ s with nodes := s.nodes.insert req.node (req.newRow blake3 key a.now) },
          .returned (.ok key))
  | .returned result => (s, .returned result)
  | .dropped => (s, .dropped)

/-- The next step of a call. -/
def stepCall (svc : AuthService) (s : Server) (a : StepAnswer) (call : RegisterCall) :
    Server × RegisterCall :=
  let after := stepPhase blake3 svc s a call.request call.phase
  (after.1, { call with phase := after.2 })

end

/-! ## The map of a server that starts -/

/-- The first row of a node counts. -/
theorem lookup_foldl_hydrateNode (rows : List (Text × NodeEntry)) (store : AuthStore) (n : Text) :
    (rows.foldl AuthStore.hydrateNode store).lookup n =
      (store.lookup n).or ((rows.find? fun row => row.1 = n).map Prod.snd) := by
  induction rows generalizing store with
  | nil => simp
  | cons row rows ih =>
      rw [List.foldl_cons, ih, List.find?_cons, AuthStore.hydrateNode, AuthStore.hasNode]
      rcases hrow : store.lookup row.1 with _ | entry
      · rw [Option.isSome_none, if_neg Bool.false_ne_true, Table.lookup_insert_eq_ite]
        by_cases hn : n = row.1
        · subst hn
          simp [hrow]
        · simp [hn, Ne.symm hn]
      · rw [Option.isSome_some, if_pos rfl]
        by_cases hn : row.1 = n
        · subst hn
          simp [hrow]
        · simp [hn]

/-- Searching by a key that a fallible map keeps is searching before the map. -/
theorem find?_of_mapM {α β : Type} {f : α → Option β} (key : α → Text) (key' : β → Text)
    (hf : ∀ a b, f a = some b → key' b = key a) {l : List α} {l' : List β} (h : l.mapM f = some l')
    (k : Text) : (l'.find? fun b => key' b = k) = (l.find? fun a => key a = k).bind f := by
  induction l generalizing l' with
  | nil =>
      cases h
      rfl
  | cons a l ih =>
      rw [List.mapM_cons] at h
      obtain ⟨b, hb, h⟩ := Option.bind_eq_some_iff.mp h
      obtain ⟨rest, hrest, h⟩ := Option.bind_eq_some_iff.mp h
      cases h
      by_cases hk : key a = k
      · simp [hf a b hb, hk, hb]
      · simp [hf a b hb, hk, ih hrest]

/-- A server that starts knows the nodes whose rows are not revoked, as the rows have them. -/
theorem lookup_hydrate {nodes : Table Text NodeRow} {store : AuthStore}
    (h : hydrate nodes = some store) (n : Text) :
    store.lookup n = ((nodes.lookup n).filter fun row => !row.revoked).bind NodeRow.toEntry := by
  obtain ⟨rows, hrows, rfl⟩ := Option.map_eq_some_iff.mp h
  unfold listActiveAuthNodes at hrows
  have hactive : Table.Lists Sigma.fst
      (fun k => ((nodes.lookup k).filter fun row => !row.revoked).map (Sigma.mk k))
      (nodes.entries.filter fun e => !e.2.revoked) := by
    constructor
    · rintro ⟨k, row⟩
      rw [List.mem_filter, Table.mem_entries_iff]
      simp [Option.filter_eq_some_iff]
    · intro k e he
      obtain ⟨row, -, rfl⟩ := Option.map_eq_some_iff.mp he
      rfl
  rw [lookup_foldl_hydrateNode, find?_of_mapM Sigma.fst Prod.fst ?_ hrows,
    (hactive.perm (List.perm_insertionSort _ _)).find?_eq]
  · generalize (nodes.lookup n).filter (fun row => !row.revoked) = found
    rcases found with _ | row
    · rfl
    · simp [Function.comp_def]
  · rintro ⟨k, row⟩ entry hentry
    obtain ⟨entry, -, rfl⟩ := Option.map_eq_some_iff.mp hentry
    rfl

/-! ## Samples -/

/-- A hash that keeps the last bytes of a key. -/
def sampleHash (bytes : Bytes) : Digest := List.Vector.ofFn fun i => bytes.reverse.getD i 0

/-- A request that anyone may make, for a node and a tenant. -/
def sampleRequest (node tenant : String) : RegisterRequest :=
  ⟨node.toList, "laptop".toList, "linux".toList, tenant.toList, none, none, none⟩

/-- Every statement runs. -/
def sampleAnswer (key : String) : StepAnswer :=
  ⟨.ok true, .ok (), .ok (), .ok (), "arc_disk_".toList ++ key.toList, 1700000000⟩

end DiskArcana.Nodes
