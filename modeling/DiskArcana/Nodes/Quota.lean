import DiskArcana.Lib.Total
import DiskArcana.Nodes.Model

/-!
# The node quota

A call of `RegisterNode` for a node that is new is checked against the plan of its tenant, but with the
number of all nodes in the map. So the quota of a tenant is decided by its own nodes as long as those of
the others fit under its limit as well (`quota_law`).

Calls come one after the other here, each with all its steps.
-/

namespace DiskArcana.Nodes

open DiskArcana.Core DiskArcana.Lib
open DiskArcana.Accounts hiding Bytes

/-! ## Whole calls -/

/-- A call, and what the outside answers to it. -/
structure RegisterEvent where
  request : RegisterRequest
  answer : StepAnswer

section

variable (blake3 : Bytes → Digest) (svc : AuthService)

/-- A whole call: from its arrival it is five steps to the answer.
Source: `services/auth.rs`, `register_node` -/
def registerNode (s : Server) (e : RegisterEvent) : Server × RegisterPhase :=
  (fun x => stepPhase blake3 svc x.1 e.answer e.request x.2)^[5] (s, .arrived)

/-- The server after a call. -/
def register (s : Server) (e : RegisterEvent) : Server := (registerNode blake3 svc s e).1

/-- The answer is a node-quota error. -/
def quotaRefused (s : Server) (e : RegisterEvent) : Bool :=
  match (registerNode blake3 svc s e).2 with
  | .returned (.error (.nodeQuota _)) => true
  | _ => false

/-! ## The law -/

/-- How many nodes a tenant has. -/
def AuthStore.tenantNodes (store : AuthStore) (tenant : Option Text) : ℕ :=
  store.entries.countP fun e => e.2.tenantId = tenant

/-- A call that names a new node and gets as far as the quota: its node id is not empty, the gate lets
it through, and the plan is found. -/
structure Decides (s : Server) (e : RegisterEvent) : Prop where
  named : e.request.node ≠ []
  gate : checkRegisterGate svc e.answer e.request = .ok ()
  plan : e.answer.tier = .ok ()
  new : s.store.hasNode e.request.node = false

/-- The limit that the plan of the caller's tenant sets. -/
def nodeLimit (q : QuotaEnforcer) (e : RegisterEvent) : ℕ := (q.limits e.request.tenant).maxNodes

/-- A new node is refused exactly when its tenant has as many as its limit admits. -/
def CountsOwn (q : QuotaEnforcer) (s : Server) (e : RegisterEvent) : Prop :=
  Decides svc s e →
    (quotaRefused blake3 svc s e = true ↔ nodeLimit q e ≤ s.store.tenantNodes e.request.tenant)

/-- The quota decisions on the calls of a tenant along a run. -/
def decisions (tenant : Option Text) (s : Server) (es : List RegisterEvent) : List Bool :=
  (Trace.history (register blake3 svc) s es).filterMap fun x =>
    if x.2.request.tenant = tenant then some (quotaRefused blake3 svc x.1 x.2) else none

/-- Quotas count a tenant's own nodes, and do not depend on what other tenants do. -/
structure QuotaLaw (q : QuotaEnforcer) (s : Server) (es : List RegisterEvent) : Prop where
  counts : Trace.Always (register blake3 svc) (fun _ s e => CountsOwn blake3 svc q s e) s es
  apart : ∀ tenant, decisions blake3 svc tenant s es =
    decisions blake3 svc tenant s (es.filter fun e => e.request.tenant = tenant)

/-- When a tenant below its limit registers a node, the nodes of all tenants together are below it. -/
def OthersFit (q : QuotaEnforcer) (s : Server) (e : RegisterEvent) : Prop :=
  Decides svc s e → s.store.tenantNodes e.request.tenant < nodeLimit q e →
    s.store.nodeCount < nodeLimit q e

/-- The node that a call names is not another tenant's. -/
def OwnNode (s : Server) (e : RegisterEvent) : Prop :=
  ∀ entry, s.store.lookup e.request.node = some entry → entry.tenantId = e.request.tenant

end

/-! ## What a call does -/

variable {blake3 : Bytes → Digest} {svc : AuthService} {q : QuotaEnforcer} {s : Server}
  {e : RegisterEvent}

/-- The call is admitted and names a new node. -/
def Registers (svc : AuthService) (s : Server) (e : RegisterEvent) : Prop :=
  admission svc s e.answer e.request = .ok () ∧ s.store.hasNode e.request.node = false

theorem registerNode_of_refused {err : RegisterError}
    (h : admission svc s e.answer e.request = .error err) :
    registerNode blake3 svc s e = (s, .returned (.error err)) := by
  unfold registerNode
  simp only [Function.iterate_succ_apply, Function.iterate_zero, id, stepPhase, h]

theorem registerNode_of_hasNode (h : admission svc s e.answer e.request = .ok ())
    (hnode : s.store.hasNode e.request.node = true) :
    registerNode blake3 svc s e = (s, .returned (.error .alreadyExists)) := by
  unfold registerNode
  simp only [Function.iterate_succ_apply, Function.iterate_zero, id, stepPhase, h, hnode, if_true]

/-- A call that is admitted and names a new node puts it into the map, whatever becomes of its row. -/
theorem registerNode_of_registers (h : Registers svc s e) :
    (registerNode blake3 svc s e).1.store = s.store.insert e.request.node
        (e.request.entry blake3 e.answer.key e.answer.now) ∧
      ∀ err, (registerNode blake3 svc s e).2 ≠ .returned (.error (.nodeQuota err)) := by
  obtain ⟨hadmits, hnew⟩ := h
  unfold registerNode
  simp only [Function.iterate_succ_apply, Function.iterate_zero, id, stepPhase, hadmits, hnew,
    Bool.false_eq_true, if_false]
  rcases e.answer.update with _ | _
  · simp
  · dsimp only
    rcases s.nodes.lookup e.request.node with _ | row
    · dsimp only
      rcases e.answer.insert with _ | _
      · simp
      · dsimp only
        split_ifs <;> simp
    · simp

theorem store_register_of_registers (h : Registers svc s e) :
    (register blake3 svc s e).store = s.store.insert e.request.node
      (e.request.entry blake3 e.answer.key e.answer.now) :=
  (registerNode_of_registers h).1

/-- Any other call leaves the map as it was. -/
theorem store_register_of_not_registers (h : ¬ Registers svc s e) :
    (register blake3 svc s e).store = s.store := by
  unfold register
  rcases hadmits : admission svc s e.answer e.request with err | _
  · rw [registerNode_of_refused hadmits]
  · have hnode : s.store.hasNode e.request.node = true := by
      rw [← Bool.not_eq_false]
      exact fun hnew => h ⟨hadmits, hnew⟩
    rw [registerNode_of_hasNode hadmits hnode]

/-- The quota is what refuses a call exactly when admission says so. -/
theorem quotaRefused_iff_error :
    quotaRefused blake3 svc s e = true ↔
      ∃ err, admission svc s e.answer e.request = .error (.nodeQuota err) := by
  have hquota : quotaRefused blake3 svc s e = true ↔
      ∃ err, (registerNode blake3 svc s e).2 = .returned (.error (.nodeQuota err)) := by
    unfold quotaRefused
    split
    · exact ⟨fun _ => ⟨_, ‹_›⟩, fun _ => rfl⟩
    · rename_i hother
      exact ⟨fun h => absurd h Bool.false_ne_true, fun ⟨err, herr⟩ => absurd herr (hother err)⟩
  rw [hquota]
  rcases hadmits : admission svc s e.answer e.request with err | _
  · rw [registerNode_of_refused hadmits]
    simp
  · rcases hnode : s.store.hasNode e.request.node with _ | _
    · constructor
      · rintro ⟨err, herr⟩
        exact absurd herr ((registerNode_of_registers ⟨hadmits, hnode⟩).2 err)
      · rintro ⟨err, herr⟩
        cases herr
    · rw [registerNode_of_hasNode hadmits hnode]
      simp

/-! ## The quota -/

theorem checkRegisterGate_ne_nodeQuota (a : StepAnswer) (req : RegisterRequest)
    (err : Hosting.QuotaError) : checkRegisterGate svc a req ≠ .error (.nodeQuota err) := by
  unfold checkRegisterGate
  split
  · simp
  · simp
  · unfold checkAdminMetadata
    split
    · simp
    · split_ifs <;> simp
  · split_ifs
    · simp
    · simp
    · split <;> simp

theorem Decides.admission_eq (h : Decides svc s e) (hq : svc.quotaEnforcer = some q)
    (hactive : q.mode.isActive = true) :
    admission svc s e.answer e.request =
      if nodeLimit q e ≤ s.store.nodeCount % 2 ^ 32 then
        .error (.nodeQuota (.nodesExceeded (s.store.nodeCount % 2 ^ 32) (nodeLimit q e)))
      else .ok () := by
  have hnamed : e.request.node.isEmpty = false := by simpa using h.named
  simp only [admission, hnamed, h.gate, checkQuota, hq, h.new, QuotaEnforcer.checkRegisterNode, hactive,
    h.plan, filter_tenant, Hosting.checkNodeCapacity, Bool.not_true, Bool.false_eq_true, if_false]
  change Except.mapError _ (if nodeLimit q e ≤ _ then _ else _) = _
  split_ifs <;> rfl

theorem tenantNodes_le_nodeCount (store : AuthStore) (tenant : Option Text) :
    store.tenantNodes tenant ≤ store.nodeCount :=
  List.countP_le_length

section

variable (hq : svc.quotaEnforcer = some q) (hactive : q.mode.isActive = true)

include hq hactive

/-- A call that is admitted for a new node, or refused by the quota, has got as far as the quota. -/
theorem decides_of_admit
    (h : Registers svc s e ∨ ∃ err, admission svc s e.answer e.request = .error (.nodeQuota err)) :
    Decides svc s e := by
  unfold Registers admission at h
  split_ifs at h with hnamed
  · simp at h
  rcases hgate : checkRegisterGate svc e.answer e.request with err | _
  · rw [hgate] at h
    rcases h with ⟨h, -⟩ | ⟨err', herr⟩
    · cases h
    · cases herr
      exact absurd hgate (checkRegisterGate_ne_nodeQuota _ _ _)
  · simp only [hgate, checkQuota, hq] at h
    rcases hnew : s.store.hasNode e.request.node with _ | _
    · refine ⟨by simpa using hnamed, hgate, ?_, hnew⟩
      rcases hplan : e.answer.tier with err | _
      · simp [hnew, QuotaEnforcer.checkRegisterNode, hactive, hplan] at h
      · rfl
    · simp [hnew] at h

/-- A call for a new node is admitted when it gets as far as the quota and all nodes are below the
limit. -/
theorem registers_iff :
    Registers svc s e ↔ Decides svc s e ∧ s.store.nodeCount % 2 ^ 32 < nodeLimit q e := by
  constructor
  · intro h
    have hdecides := decides_of_admit hq hactive (.inl h)
    have hadmits := h.1
    rw [hdecides.admission_eq hq hactive] at hadmits
    split_ifs at hadmits with hlimit
    exact ⟨hdecides, Nat.lt_of_not_le hlimit⟩
  · rintro ⟨hdecides, hlimit⟩
    refine ⟨?_, hdecides.new⟩
    rw [hdecides.admission_eq hq hactive, if_neg (Nat.not_le_of_lt hlimit)]

/-- It is refused by the quota when it gets that far and they are not. -/
theorem quotaRefused_iff :
    quotaRefused blake3 svc s e = true ↔
      Decides svc s e ∧ nodeLimit q e ≤ s.store.nodeCount % 2 ^ 32 := by
  rw [quotaRefused_iff_error]
  constructor
  · intro h
    have hdecides := decides_of_admit hq hactive (.inr h)
    obtain ⟨err, hadmits⟩ := h
    rw [hdecides.admission_eq hq hactive] at hadmits
    split_ifs at hadmits with hlimit
    exact ⟨hdecides, hlimit⟩
  · rintro ⟨hdecides, hlimit⟩
    rw [hdecides.admission_eq hq hactive, if_pos hlimit]
    exact ⟨_, rfl⟩

/-! ## One step -/

/-- Where the count of all nodes fits its type, a decision is right exactly when the nodes of the others
do not matter for it. -/
theorem countsOwn_iff (hcount : s.store.nodeCount < 2 ^ 32) :
    CountsOwn blake3 svc q s e ↔ OthersFit svc q s e := by
  have hle := tenantNodes_le_nodeCount s.store e.request.tenant
  unfold CountsOwn OthersFit
  refine forall_congr' fun hdecides => ?_
  rw [quotaRefused_iff hq hactive, Nat.mod_eq_of_lt hcount]
  constructor
  · intro h hown
    by_contra hall
    exact absurd (h.mp ⟨hdecides, Nat.le_of_not_lt hall⟩) (Nat.not_le_of_lt hown)
  · intro h
    refine ⟨fun hrefused => ?_, fun hown => ⟨hdecides, hown.trans hle⟩⟩
    by_contra hown
    exact absurd (h (Nat.lt_of_not_le hown)) (Nat.not_lt_of_le hrefused.2)

end

/-! ## Without the other tenants -/

/-- The second map holds the nodes of one tenant in the first. -/
def IsPart (tenant : Option Text) (store own : AuthStore) : Prop :=
  ∀ n, own.lookup n = (store.lookup n).filter fun entry => entry.tenantId = tenant

theorem IsPart.nodeCount_eq {tenant : Option Text} {store own : AuthStore}
    (h : IsPart tenant store own) : own.nodeCount = store.tenantNodes tenant := by
  have hown : own.nodeCount = Table.total (fun _ => 1) own := by
    simp [AuthStore.nodeCount, Table.total]
  rw [hown, AuthStore.tenantNodes, ← Table.total_ite fun entry : NodeEntry => entry.tenantId = tenant]
  apply Table.total_eq_of_weight_eq
  intro n
  rw [Table.weight, Table.weight, h n]
  rcases store.lookup n with _ | entry
  · rfl
  · by_cases htenant : entry.tenantId = tenant
    · rw [Option.filter_some_pos (by simpa using htenant)]
      simp [htenant]
    · rw [Option.filter_some_neg (by simpa using htenant)]
      simp [htenant]

/-- Registering the same node in both. -/
theorem IsPart.insert {tenant : Option Text} {store own : AuthStore} (h : IsPart tenant store own)
    {n : Text} {entry : NodeEntry} (htenant : entry.tenantId = tenant) :
    IsPart tenant (store.insert n entry) (own.insert n entry) := by
  intro n'
  rw [Table.lookup_insert_eq_ite, Table.lookup_insert_eq_ite, h n']
  split_ifs
  · rw [Option.filter_some_pos (by simpa using htenant)]
  · rfl

/-- Registering another tenant's new node in the first. -/
theorem IsPart.insert_left {tenant : Option Text} {store own : AuthStore}
    (h : IsPart tenant store own) {n : Text} {entry : NodeEntry} (htenant : entry.tenantId ≠ tenant)
    (hnew : store.lookup n = none) : IsPart tenant (store.insert n entry) own := by
  intro n'
  rw [Table.lookup_insert_eq_ite, h n']
  split_ifs with hn
  · subst hn
    rw [hnew, Option.filter_some_neg (by simpa using htenant)]
    rfl
  · rfl

section

variable (hq : svc.quotaEnforcer = some q) (hactive : q.mode.isActive = true)

include hq hactive

variable (blake3) in
/-- What is decided in the full run, where the others fit, is decided without them. -/
theorem registers_iff_of_isPart {s' : Server} (hpart : IsPart e.request.tenant s.store s'.store)
    (hcount : s.store.nodeCount < 2 ^ 32) (hfit : OthersFit svc q s e) (hown : OwnNode s e) :
    (Registers svc s e ↔ Registers svc s' e) ∧
      quotaRefused blake3 svc s e = quotaRefused blake3 svc s' e := by
  have hnode : s'.store.hasNode e.request.node = s.store.hasNode e.request.node := by
    rw [AuthStore.hasNode, AuthStore.hasNode, hpart]
    rcases hlookup : s.store.lookup e.request.node with _ | entry
    · rfl
    · rw [Option.filter_some_pos (by simpa using hown entry hlookup)]
  have hdecides : Decides svc s' e ↔ Decides svc s e :=
    ⟨fun h => ⟨h.named, h.gate, h.plan, hnode ▸ h.new⟩,
      fun h => ⟨h.named, h.gate, h.plan, hnode.trans h.new⟩⟩
  have hle := tenantNodes_le_nodeCount s.store e.request.tenant
  have hlimit : Decides svc s e → (s'.store.nodeCount % 2 ^ 32 < nodeLimit q e ↔
      s.store.nodeCount % 2 ^ 32 < nodeLimit q e) := by
    intro h
    rw [hpart.nodeCount_eq, Nat.mod_eq_of_lt hcount, Nat.mod_eq_of_lt (Nat.lt_of_le_of_lt hle hcount)]
    exact ⟨hfit h, Nat.lt_of_le_of_lt hle⟩
  constructor
  · rw [registers_iff hq hactive, registers_iff hq hactive, hdecides]
    exact and_congr_right fun h => (hlimit h).symm
  · rw [Bool.eq_iff_iff, quotaRefused_iff hq hactive, quotaRefused_iff hq hactive, hdecides]
    refine and_congr_right fun h => ?_
    rw [← Nat.not_lt, ← Nat.not_lt, hlimit h]

/-- A call of the tenant keeps its part apart. -/
theorem isPart_register {s' : Server} (hpart : IsPart e.request.tenant s.store s'.store)
    (hcount : s.store.nodeCount < 2 ^ 32) (hfit : OthersFit svc q s e) (hown : OwnNode s e) :
    IsPart e.request.tenant (register blake3 svc s e).store (register blake3 svc s' e).store := by
  have hiff := (registers_iff_of_isPart blake3 hq hactive hpart hcount hfit hown).1
  by_cases h : Registers svc s e
  · rw [store_register_of_registers h, store_register_of_registers (hiff.mp h)]
    exact hpart.insert rfl
  · rw [store_register_of_not_registers h, store_register_of_not_registers fun h' => h (hiff.mpr h')]
    exact hpart

omit hq hactive in
/-- So does a call of another tenant. -/
theorem isPart_register_left {tenant : Option Text} {own : AuthStore}
    (hpart : IsPart tenant s.store own) (htenant : e.request.tenant ≠ tenant) :
    IsPart tenant (register blake3 svc s e).store own := by
  by_cases h : Registers svc s e
  · rw [store_register_of_registers h]
    exact hpart.insert_left htenant (Option.isNone_iff_eq_none.mp (by simpa [AuthStore.hasNode] using h.2))
  · rw [store_register_of_not_registers h]
    exact hpart

theorem decisions_filter {es : List RegisterEvent}
    (hcount : Trace.Always (register blake3 svc)
      (fun _ s e => s.store.nodeCount < 2 ^ 32 ∧ OthersFit svc q s e ∧ OwnNode s e) s es)
    (hempty : s.store = ∅) (tenant : Option Text) :
    decisions blake3 svc tenant s es =
      decisions blake3 svc tenant s (es.filter fun e => e.request.tenant = tenant) := by
  unfold decisions
  have hsteps := Trace.forall_mem_history hcount
  refine Trace.filterMap_history_filter (fun e => decide (e.request.tenant = tenant))
    (fun s e => if e.request.tenant = tenant then some (quotaRefused blake3 svc s e) else none)
    (V := fun future s s' => IsPart tenant s.store s'.store ∧
      ∀ x ∈ future, x.1.store.nodeCount < 2 ^ 32 ∧ OthersFit svc q x.1 x.2 ∧ OwnNode x.1 x.2)
    (Q := fun _ _ => True) ?_ ?_ ?_ ⟨?_, hsteps⟩
  · rintro s s' e future hkeep ⟨hpart, hfuture⟩
    obtain ⟨hcount, hfit, hown⟩ := hfuture _ List.mem_cons_self
    have htenant : e.request.tenant = tenant := by simpa using hkeep
    subst htenant
    rw [if_pos rfl, if_pos rfl,
      (registers_iff_of_isPart blake3 hq hactive hpart hcount hfit hown).2]
    exact ⟨rfl, isPart_register hq hactive hpart hcount hfit hown,
      fun x hx => hfuture x (List.mem_cons_of_mem _ hx)⟩
  · rintro s s' e future hdrop - ⟨hpart, hfuture⟩
    have htenant : e.request.tenant ≠ tenant := by simpa using hdrop
    rw [if_neg htenant]
    exact ⟨rfl, isPart_register_left hpart htenant,
      fun x hx => hfuture x (List.mem_cons_of_mem _ hx)⟩
  · exact List.pairwise_of_forall fun _ _ => trivial
  · intro n
    rw [hempty]
    rfl

/-- **When the node quota counts the tenant's own nodes**: when tenants register nodes of their own, and
a tenant below its limit registers one only while all nodes together are below it. -/
theorem quota_law (nodes : Table Text NodeRow) (es : List RegisterEvent) :
    (Trace.Always (register blake3 svc)
        (fun _ s e => s.store.nodeCount < 2 ^ 32 ∧ OthersFit svc q s e ∧ OwnNode s e) ⟨∅, nodes⟩ es →
      QuotaLaw blake3 svc q ⟨∅, nodes⟩ es) ∧
    (Trace.Always (register blake3 svc) (fun _ s _ => s.store.nodeCount < 2 ^ 32) ⟨∅, nodes⟩ es →
      (Trace.Always (register blake3 svc) (fun _ s e => CountsOwn blake3 svc q s e) ⟨∅, nodes⟩ es ↔
        Trace.Always (register blake3 svc) (fun _ s e => OthersFit svc q s e) ⟨∅, nodes⟩ es)) := by
  constructor
  · intro h
    refine ⟨fun pre e post hes => ?_, decisions_filter hq hactive h rfl⟩
    obtain ⟨hcount, hfit, -⟩ := h pre e post hes
    exact (countsOwn_iff hq hactive hcount).mpr hfit
  · intro hcount
    exact ⟨fun h pre e post hes => (countsOwn_iff hq hactive (hcount pre e post hes)).mp (h pre e post hes),
      fun h pre e post hes => (countsOwn_iff hq hactive (hcount pre e post hes)).mpr (h pre e post hes)⟩

end

/-! ## Two tenants on the free plan -/

/-- A server that enforces the free plan, with two nodes a tenant. -/
def freePlan : QuotaEnforcer := ⟨.enforce, ∅, .free, none⟩

/-- It lets everyone register. -/
def openService : AuthService := ⟨.open_, true, none, some freePlan⟩

/-- A call for a node of a tenant. -/
def sampleCall (node tenant : String) : RegisterEvent := ⟨sampleRequest node tenant, sampleAnswer node⟩

/-- One node of each. -/
theorem quotaLaw_of_one_each :
    QuotaLaw sampleHash openService freePlan ⟨∅, ∅⟩ [sampleCall "n1" "a", sampleCall "n2" "b"] := by
  refine (quota_law rfl rfl ∅ [sampleCall "n1" "a", sampleCall "n2" "b"]).1 ?_
  rw [Trace.always_pair]
  refine ⟨⟨by decide +kernel, fun _ _ => by decide +kernel, fun entry h => ?_⟩,
    by decide +kernel, fun _ _ => by decide +kernel, fun entry h => ?_⟩
  · cases h
  · cases h

/-- The first tenant has two nodes, the second none, and its first one is refused. -/
theorem not_quotaLaw_of_two_tenants :
    ¬ QuotaLaw sampleHash openService freePlan ⟨∅, ∅⟩
      [sampleCall "n1" "a", sampleCall "n2" "a", sampleCall "n3" "b"] := by
  intro h
  have hlast := h.counts [sampleCall "n1" "a", sampleCall "n2" "a"] (sampleCall "n3" "b") [] rfl
    ⟨by decide, rfl, rfl, by decide +kernel⟩
  revert hlast
  decide +kernel

end DiskArcana.Nodes
