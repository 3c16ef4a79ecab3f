import DiskArcana.Personal.Backend

/-!
# The parent of the personal disk

The parent writes and cleans up under an authority and over a storage. The authority is `NativeAuthority` over
a control plane, which may answer anything; the storage is `NativeStorage` over the SQLite backend, whose
context is the lease of the effect. A request is carried out inside two callbacks of the control plane,
which can still refuse when they have returned.
-/

namespace DiskArcana.Personal

open DiskArcana.Lib DiskArcana.Lib.Transactions DiskArcana.Accounts

/-! ## Control -/

structure DeploymentBinding where
  issuer : Text
  realmId : Id
  deploymentGeneration : Counter
  participantConfigVersion : Counter
  keyDomainRef : Text
  executableSha256 : Digest
  configSha256 : Digest
  deriving DecidableEq

/-- Source: `parent_native.rs`, `selection_valid` -/
def DeploymentBinding.selectionValid (d : DeploymentBinding) : Bool :=
  d.issuer ≠ [] && (utf8 d.issuer).length ≤ 256 && d.keyDomainRef ≠ [] &&
    (utf8 d.keyDomainRef).length ≤ 256

structure ProtectedConfigReferences where
  provisionerReference : Text
  authReference : Text

structure LeaseBinding where
  deployment : DeploymentBinding
  descriptorIdentity : Text
  resourceIdentity : Text
  operation : Operation

structure DurableBinding where
  originalEffect : OriginalEffect
  storageReceiptId : Text

/-- The control plane: its answers during one request. `withStartup` and `withEffect` hand a lease and what
has been observed to the callback, or refuse; `afterStartup` and `afterEffect` are refusals after the callback
has returned a value.
Source: `parent_authority.rs`, `Control` -/
structure Control (σ : Type) where
  withStartup : DeploymentBinding → ProtectedConfigReferences → Except Refusal (σ × DeploymentBinding)
  afterStartup : DeploymentBinding → ProtectedConfigReferences → Option Refusal
  withEffect : σ → Request → Operation → Except Refusal (NativeCommitContext × LeaseBinding)
  afterEffect : σ → Request → Operation → Option Refusal
  cancelledResource : NativeCommitContext → Request → Except Refusal Bytes
  durableBinding : NativeCommitContext → Request → Outcome → Except Refusal DurableBinding
  cleanedBinding : NativeCommitContext → Request → Outcome → Except Refusal OriginalEffect
  registerOriginalOutcome : NativeCommitContext → Request → Outcome → Except Refusal Unit

variable {σ α : Type} (deps : Deps) (control : Control σ)

/-! ## Authority -/

structure Startup (σ : Type) where
  lease : σ
  observed : DeploymentBinding

structure Effect where
  lease : NativeCommitContext
  operation : Operation
  descriptorIdentity : Text
  resourceIdentity : Text

/-- The value of a callback, unless the control plane refuses after it. -/
def release (after : Option Refusal) (a : α) : Except Refusal α :=
  match after with
  | some x => .error x
  | none => .ok a

/-- Source: `parent_authority.rs`, `NativeAuthority::with_startup` -/
def withStartup (d : DeploymentBinding) (refs : ProtectedConfigReferences)
    (action : Startup σ → Sql Tables Refusal α) : Sql Tables Refusal α := do
  check (require (d.selectionValid && refs.provisionerReference ≠ [] && refs.authReference ≠ [])
    .unavailable)
  let (lease, observed) ← check (control.withStartup d refs)
  check (require (observed = d) .unavailable)
  let a ← action ⟨lease, observed⟩
  check (release (control.afterStartup d refs) a)

/-- What the control plane has bound a lease to is what is asked for. -/
def LeaseBinding.Fits (binding : LeaseBinding) (d : DeploymentBinding) (r : Request) (op : Operation) :
    Prop :=
  binding.deployment = d ∧ binding.descriptorIdentity = r.descriptorIdentity ∧
    binding.resourceIdentity = r.resourceIdentity ∧ binding.operation = op

instance (binding : LeaseBinding) (d : DeploymentBinding) (r : Request) (op : Operation) :
    Decidable (binding.Fits d r op) := by
  unfold LeaseBinding.Fits
  infer_instance

/-- Source: `parent_authority.rs`, `NativeAuthority::with_effect` -/
def withEffect (s : Startup σ) (r : Request) (op : Operation) (action : Effect → Sql Tables Refusal α) :
    Sql Tables Refusal α := do
  check (require (r.realm = s.observed.realmId && r.acceptsOperation op) .notAvailable)
  let (lease, binding) ← check (control.withEffect s.lease r op)
  check (require (binding.Fits s.observed r op) .notAvailable)
  let a ← action ⟨lease, op, binding.descriptorIdentity, binding.resourceIdentity⟩
  check (release (control.afterEffect s.lease r op) a)

namespace Effect

variable (e : Effect) (r : Request)

def sameRequest : Except Refusal Unit :=
  require (e.descriptorIdentity = r.descriptorIdentity && e.resourceIdentity = r.resourceIdentity)
    .notAvailable

/-- Source: `parent_authority.rs`, `Effect::matches` and `require_backend_operation` -/
def matchesRequest (op : Operation) : Except Refusal Unit := do
  e.sameRequest r
  require (e.operation = op) .notAvailable

/-- Source: `parent_authority.rs`, `NativeAuthority::cancelled` -/
def cancelled : Except Refusal CancelledResource := do
  e.matchesRequest r .cleanupCancelled
  let bytes ← control.cancelledResource e.lease r
  CancelledResource.parse deps bytes r

/-- Source: `parent_authority.rs`, `NativeAuthority::verify_durable` -/
def verifyDurable (receipt : ObjectReceipt) (outcome : Outcome) : Except Refusal Unit := do
  require (e.operation = .stage || e.operation = .verify) .notAvailable
  e.sameRequest r
  let held ← outcome.receipt r
  require (held = receipt) .notAvailable
  let expected ← control.durableBinding e.lease r outcome
  require (outcome.matchesOriginalEffect expected.originalEffect &&
    outcome.storageReceiptId.map Subtype.val = some expected.storageReceiptId) .notAvailable

/-- Source: `parent_authority.rs`, `NativeAuthority::register_outcome` -/
def registerOutcome (outcome : Outcome) : Except Refusal Unit := do
  e.sameRequest r
  require (outcome.matchesOperation e.operation) .notAvailable
  control.registerOriginalOutcome e.lease r outcome

/-- Source: `parent_authority.rs`, `NativeAuthority::verify_cleaned` -/
def verifyCleaned (c : CancelledResource) (outcome : Outcome) : Except Refusal Unit := do
  e.matchesRequest r .cleanupCancelled
  c.verifyCleaned r outcome
  let expected ← control.cleanedBinding e.lease r outcome
  require (outcome.matchesOriginalEffect expected) .notAvailable

end Effect

/-! ## Storage -/

inductive Commit (R O : Type)
  | committed (receipt : R) (outcome : O)
  | unknown

/-- An observation of the backend with the receipt of its outcome.
Source: `parent_native.rs`, `NativeStorage::observe` -/
def project (r : Request) : Observation Unit Outcome → Except Refusal (Observation ObjectReceipt Outcome)
  | .durable _ outcome => do
      let receipt ← outcome.receipt r
      .ok (.durable receipt outcome)
  | .cancelledCleaned (.stored _) => .error .unavailable
  | .cancelledCleaned (.cleaned s) => .ok (.cancelledCleaned (.cleaned s))
  | .unseen => .ok .unseen
  | .prepared => .ok .prepared
  | .unknown => .ok .unknown
  | .corrupt => .ok .corrupt
  | .cleanupPending => .ok .cleanupPending

namespace NativeStorage

variable (e : Effect) (r : Request)

def observe : Sql Tables Refusal (Observation ObjectReceipt Outcome) := do
  let o ← observeContext deps e.lease r
  check (project r o)

/-- Source: `parent_native.rs`, `NativeStorage::stage`; `parent_backend.rs`, `NativeBackend::stage` -/
def stage (bytes : Bytes) : Sql Tables Refusal (Commit ObjectReceipt Outcome) := do
  check (r.verifyBody deps bytes)
  check (e.matchesRequest r .stage)
  match ← stageContext deps e.lease r bytes with
  | some outcome => do
      let receipt ← check (outcome.receipt r)
      pure (.committed receipt outcome)
  | none => pure .unknown

/-- Source: `parent_native.rs`, `NativeStorage::verify_exact_readback` -/
def verifyExactReadback (receipt : ObjectReceipt) : Sql Tables Refusal Unit := do
  let selected ← check r.selectedReceipt
  check (require (receipt = selected) .notAvailable)
  let bytes ← readContext deps e.lease r receipt.sizeBytes
  check (match r.verifyBody deps bytes with
    | .ok () => .ok ()
    | .error _ => .error .notAvailable)

/-- Source: `parent_native.rs`, `NativeStorage::tombstone`; `parent_backend.rs`, `tombstone_exact` -/
def tombstone (c : CancelledResource) : Sql Tables Refusal Unit := do
  let keys ← check (c.objects r)
  check (e.matchesRequest r .cleanupCancelled)
  tombstoneContext e.lease r keys c

/-- Source: `parent_native.rs`, `NativeStorage::finish_cleanup`; `parent_backend.rs`, `cleanup_exact` -/
def finishCleanup (c : CancelledResource) : Sql Tables Refusal (Option Outcome) := do
  let keys ← check (c.objects r)
  check (e.matchesRequest r .cleanupCancelled)
  match ← cleanupContext deps e.lease r keys c with
  | some outcome => do
      check (c.verifyCleaned r outcome)
      pure (some outcome)
  | none => pure none

end NativeStorage

/-! ## Parent -/

namespace Parent

variable (d : DeploymentBinding) (refs : ProtectedConfigReferences) (r : Request)

def authorized (op : Operation) (action : Effect → Sql Tables Refusal α) : Sql Tables Refusal α :=
  withStartup control d refs fun s => withEffect control s r op action

/-- Source: `parent_adapter.rs`, `Parent::confirmed` -/
def confirmed (e : Effect) (receipt : ObjectReceipt) (outcome : Outcome) :
    Sql Tables Refusal Outcome := do
  check (e.verifyDurable control r receipt outcome)
  NativeStorage.verifyExactReadback deps e r receipt
  check (e.registerOutcome control r outcome)
  pure outcome

/-- The body of a request, checked. -/
def hydrated (body : Except Refusal Bytes) : Except Refusal Bytes := do
  let bytes ← body
  require (bytes.length ≤ 1048576) .notAvailable
  r.verifyBody deps bytes
  .ok bytes

/-- What is done with an observation. -/
def reconcile (body : Except Refusal Bytes) (e : Effect) :
    Observation ObjectReceipt Outcome → Sql Tables Refusal Outcome
  | .durable receipt outcome => do
      let _ ← check (hydrated deps r body)
      confirmed deps control r e receipt outcome
  | .unseen => do
      let bytes ← check (hydrated deps r body)
      match ← NativeStorage.stage deps e r bytes with
      | .committed receipt outcome => confirmed deps control r e receipt outcome
      | .unknown => check (.error .pending)
  | .prepared => check (.error .pending)
  | .unknown => check (.error .pending)
  | .cleanupPending => check (.error .conflict)
  | .cancelledCleaned _ => check (.error .conflict)
  | .corrupt => check (.error .unavailable)

/-- `body` is the answer of the callback that hydrates the body.
Source: `parent_adapter.rs`, `Parent::write_or_reconcile` -/
def writeOrReconcile (body : Except Refusal Bytes) : Sql Tables Refusal Outcome :=
  authorized control d refs r .stage fun e => do
    let o ← NativeStorage.observe deps e r
    reconcile deps control r body e o

/-- The outcome of a cleanup, from an observation. -/
def cleaned (e : Effect) (c : CancelledResource) :
    Observation ObjectReceipt Outcome → Sql Tables Refusal Outcome
  | .unknown => check (.error .pending)
  | .prepared => check (.error .pending)
  | .corrupt => check (.error .unavailable)
  | .cancelledCleaned outcome => pure outcome
  | _ => do
      NativeStorage.tombstone e r c
      match ← NativeStorage.finishCleanup deps e r c with
      | some outcome => pure outcome
      | none => check (.error .pending)

/-- Source: `parent_adapter.rs`, `Parent::cleanup` -/
def cleanup : Sql Tables Refusal Outcome :=
  authorized control d refs r .cleanupCancelled fun e => do
    let c ← check (e.cancelled deps control r)
    let o ← NativeStorage.observe deps e r
    let outcome ← cleaned deps r e c o
    check (e.verifyCleaned control r c outcome)
    check (e.registerOutcome control r outcome)
    pure outcome

end Parent

end DiskArcana.Personal
