import Mathlib.Data.List.Perm.Basic
import DiskArcana.Accounts.Model
import DiskArcana.Lib.Json

/-!
# Capture descriptors and owner outcomes

What the personal disk is asked to store, and what it answers: the descriptor of a capture with its one
or two parts, a request for one of the parts or for the capture as a whole, the outcomes `disk_stored` and
`disk_cleaned`, and the cancellation of a capture. The values are as they are after parsing; what
`serde_json` reads and what `sha2` computes are parameters (`Deps`). The texts under which requests are kept
determine the capture and the part (`resourceIdentity_inj`).
-/

namespace DiskArcana.Personal

open DiskArcana.Lib DiskArcana.Accounts

inductive Refusal
  | notAvailable | pending | conflict | backpressure | unavailable
  deriving DecidableEq, Repr

inductive Operation
  | stage | verify | status | cleanupCancelled
  deriving DecidableEq, Repr

def hexLower (c : Char) : Bool := c.isDigit || ('a' ≤ c && c ≤ 'f')

/-- Source: `capture_binding.rs`, `identifier` -/
def identifier (s : Text) : Bool :=
  s.length = 36 && s.zipIdx.all fun (c, i) => if i ∈ [8, 13, 18, 23] then c = '-' else hexLower c

/-- Source: `capture_binding.rs`, `digest` -/
def digest (s : Text) : Bool := s.length = 64 && s.all hexLower

abbrev Id := { s : Text // identifier s = true }

abbrev Digest := { s : Text // digest s = true }

/-- A `u64`. -/
abbrev Counter := Fin (2 ^ 64)

/-- One proof for every literal of the type. -/
instance counterNeZero : NeZero (2 ^ 64) := inferInstance

/-! ## Descriptors -/

structure Part where
  partId : Id
  objectId : Id
  objectRevision : Id
  sha256 : Digest
  sizeBytes : ℕ
  deriving DecidableEq

inductive Role
  | note | attachment
  deriving DecidableEq, Repr

def Role.asText : Role → Text
  | .note => "note".toList
  | .attachment => "attachment".toList

def version : Text := "personal-capture/v1".toList

def media : Text := "text/plain;charset=utf-8".toList

def appendMessage : Text := "append_message".toList

def maxCounter : ℕ := 9007199254740990

/-- A parsed descriptor: its first part is the note, its second the attachment. The schema version, the
operation and the media types are the constants above.
Source: `capture_binding.rs`, `CaptureDescriptor` -/
structure CaptureDescriptor where
  realmId : Id
  captureId : Id
  conversationId : Id
  messageId : Id
  expectedConversationRevision : ℕ
  idempotencyKey : Id
  requestFingerprint : Digest
  cancellationGeneration : ℕ
  note : Part
  attachment : Option Part
  revision_le : expectedConversationRevision ≤ maxCounter
  generation_le : cancellationGeneration ≤ maxCounter
  note_le : note.sizeBytes ≤ 65536
  attachment_le : ∀ p ∈ attachment, p.sizeBytes ≤ 1048576
  distinct : ∀ p ∈ attachment, note.partId ≠ p.partId ∧ note.objectId ≠ p.objectId
  deriving DecidableEq

namespace CaptureDescriptor

variable (d : CaptureDescriptor)

def parts : List (Role × Part) := (.note, d.note) :: d.attachment.toList.map fun p => (.attachment, p)

/-- Source: `capture_binding.rs`, `descriptor_identity` -/
def descriptorIdentity : Text :=
  Json.array [Json.string version, Json.string d.realmId, Json.string d.captureId,
    Json.string d.conversationId, Json.string d.messageId, Json.nat d.expectedConversationRevision,
    Json.string appendMessage, Json.string d.idempotencyKey, Json.string d.requestFingerprint,
    Json.nat d.cancellationGeneration,
    Json.array (d.parts.map fun (role, p) =>
      Json.array [Json.string p.partId, Json.string role.asText, Json.string p.objectId,
        Json.string p.objectRevision, Json.string p.sha256, Json.nat p.sizeBytes, Json.string media])]

variable {d}

theorem captureId_of_descriptorIdentity {d' : CaptureDescriptor}
    (h : d.descriptorIdentity = d'.descriptorIdentity) : d.captureId = d'.captureId := by
  unfold descriptorIdentity at h
  rw [Json.array_string_cons_inj, Json.array_string_cons_inj, Json.array_string_cons_inj] at h
  exact Subtype.ext h.2.2.1

end CaptureDescriptor

/-- Source: `capture_binding.rs`, `ObjectReceipt` -/
structure ObjectReceipt where
  schemaVersion : Text
  realmId : Text
  captureId : Text
  partId : Text
  objectId : Text
  objectRevision : Text
  sha256 : Text
  sizeBytes : ℕ
  mediaType : Text
  requestFingerprint : Text
  cancellationGeneration : ℕ
  deriving DecidableEq

def field (key : String) (written : Text) : Text × Text := (key.toList, written)

def ObjectReceipt.toJson (r : ObjectReceipt) : Text :=
  Json.object [field "schemaVersion" (Json.string r.schemaVersion), field "realmId" (Json.string r.realmId),
    field "captureId" (Json.string r.captureId), field "partId" (Json.string r.partId),
    field "objectId" (Json.string r.objectId), field "objectRevision" (Json.string r.objectRevision),
    field "sha256" (Json.string r.sha256), field "sizeBytes" (Json.nat r.sizeBytes),
    field "mediaType" (Json.string r.mediaType),
    field "requestFingerprint" (Json.string r.requestFingerprint),
    field "cancellationGeneration" (Json.nat r.cancellationGeneration)]

/-- Source: `capture_binding.rs`, `expected_receipts`, for one part -/
def CaptureDescriptor.expectedReceipt (d : CaptureDescriptor) (p : Part) : ObjectReceipt where
  schemaVersion := version
  realmId := d.realmId
  captureId := d.captureId
  partId := p.partId
  objectId := p.objectId
  objectRevision := p.objectRevision
  sha256 := p.sha256
  sizeBytes := p.sizeBytes
  mediaType := media
  requestFingerprint := d.requestFingerprint
  cancellationGeneration := d.cancellationGeneration

/-! ## Outcomes -/

/-- The identity of an effect, as it was when the effect took place.
Source: `parent_native.rs`, `OriginalEffect` -/
structure OriginalEffect where
  ownerReceiptId : Id
  realmId : Id
  deploymentGeneration : Counter
  participantId : Id
  processGeneration : Counter
  operationId : Id
  intentId : Id
  ownerCommitId : Id
  localSeq : Counter
  resourceBindingDigest : Digest
  deriving DecidableEq

structure Stored extends OriginalEffect where
  objectReceipt : ObjectReceipt
  storageReceiptId : Id
  deriving DecidableEq

structure Cancellation where
  schemaVersion : Text
  purpose : Text
  realmId : Id
  captureId : Id
  requestFingerprint : Digest
  intentRevision : ℕ
  cancellationGeneration : ℕ
  deriving DecidableEq

structure ObjectKey where
  partId : Id
  objectId : Id
  objectRevision : Id
  deriving DecidableEq

structure Cleaned extends OriginalEffect where
  cancelledOwnerOutcomeId : Id
  cancellation : Cancellation
  cleanedObjects : List ObjectKey
  deriving DecidableEq

inductive Outcome
  | stored (s : Stored)
  | cleaned (s : Cleaned)
  deriving DecidableEq

/-- The fields that both outcomes start with. -/
def OriginalEffect.fields (o : OriginalEffect) : List (Text × Text) :=
  [field "owner_receipt_id" (Json.string o.ownerReceiptId), field "realm_id" (Json.string o.realmId),
    field "deployment_generation" (Json.string (Json.nat o.deploymentGeneration)),
    field "participant_id" (Json.string o.participantId),
    field "process_generation" (Json.string (Json.nat o.processGeneration)),
    field "operation_id" (Json.string o.operationId), field "intent_id" (Json.string o.intentId),
    field "owner_commit_id" (Json.string o.ownerCommitId),
    field "local_seq" (Json.string (Json.nat o.localSeq)),
    field "resource_binding_digest" (Json.string o.resourceBindingDigest)]

def Cancellation.toJson (c : Cancellation) : Text :=
  Json.object [field "schemaVersion" (Json.string c.schemaVersion), field "purpose" (Json.string c.purpose),
    field "realmId" (Json.string c.realmId), field "captureId" (Json.string c.captureId),
    field "requestFingerprint" (Json.string c.requestFingerprint),
    field "intentRevision" (Json.nat c.intentRevision),
    field "cancellationGeneration" (Json.nat c.cancellationGeneration)]

def ObjectKey.toJson (k : ObjectKey) : Text :=
  Json.object [field "part_id" (Json.string k.partId), field "object_id" (Json.string k.objectId),
    field "object_revision" (Json.string k.objectRevision)]

namespace Outcome

/-- Source: `parent_native.rs`, `registration_json` -/
def registrationJson : Outcome → Text
  | .stored s =>
      Json.object (field "kind" (Json.string "disk_stored".toList) :: s.toOriginalEffect.fields ++
        [field "object_receipt" s.objectReceipt.toJson,
          field "storage_receipt_id" (Json.string s.storageReceiptId)])
  | .cleaned s =>
      Json.object (field "kind" (Json.string "disk_cleaned".toList) :: s.toOriginalEffect.fields ++
        [field "cancelled_owner_outcome_id" (Json.string s.cancelledOwnerOutcomeId),
          field "cancellation" s.cancellation.toJson,
          field "cleaned_objects" (Json.array (s.cleanedObjects.map ObjectKey.toJson))])

/-- Source: `parent_native.rs`, `original_identity` -/
def originalIdentity : Outcome → OriginalEffect
  | .stored s => s.toOriginalEffect
  | .cleaned s => s.toOriginalEffect

/-- Source: `parent_native.rs`, `matches_original_effect` -/
def matchesOriginalEffect (o : Outcome) (expected : OriginalEffect) : Bool := o.originalIdentity = expected

def storageReceiptId : Outcome → Option Id
  | .stored s => some s.storageReceiptId
  | .cleaned _ => none

def ownerReceiptId (o : Outcome) : Text := o.originalIdentity.ownerReceiptId

def localSequence (o : Outcome) : Counter := o.originalIdentity.localSeq

/-- Source: `parent_native.rs`, `matches_operation` -/
def matchesOperation : Outcome → Operation → Bool
  | .stored _, .stage => true
  | .cleaned _, .cleanupCancelled => true
  | _, _ => false

/-- The text says which of the two outcomes it is. -/
theorem registrationJson_stored_ne_cleaned (s : Stored) (c : Cleaned) :
    registrationJson (.stored s) ≠ registrationJson (.cleaned c) := by
  intro h
  have hkind := Json.object_first_inj h
  revert hkind
  decide

end Outcome

/-- Source: `parent_native.rs`, `CancelledResource` -/
structure CancelledResource where
  kind : Text
  intentId : Id
  terminalIntentRevision : ℕ
  cancellationGeneration : ℕ
  ownerOutcomeId : Id
  partIds : List Id
  cancellation : Cancellation
  deriving DecidableEq

def CancelledResource.toJson (c : CancelledResource) : Text :=
  Json.object [field "kind" (Json.string c.kind), field "intent_id" (Json.string c.intentId),
    field "terminal_intent_revision" (Json.nat c.terminalIntentRevision),
    field "cancellation_generation" (Json.nat c.cancellationGeneration),
    field "owner_outcome_id" (Json.string c.ownerOutcomeId),
    field "part_ids" (Json.array (c.partIds.map fun p => Json.string p)),
    field "cancellation" c.cancellation.toJson]

/-! ## Requests -/

/-- What `serde_json::from_slice` makes of some bytes, and the digest of bytes as hexadecimal digits. -/
structure Deps where
  outcomeFromSlice : Bytes → Option Outcome
  receiptFromSlice : Bytes → Option ObjectReceipt
  cancelledFromSlice : Bytes → Option CancelledResource
  sha256 : Bytes → Text

/-- Source: `parent_native.rs`, `Request` -/
structure Request where
  descriptor : CaptureDescriptor
  selected : Option Part
  selected_mem : ∀ p ∈ selected, p ∈ descriptor.parts.map Prod.snd

namespace Request

variable (r : Request)

def expected : List Part := r.descriptor.parts.map Prod.snd

def descriptorIdentity : Text := r.descriptor.descriptorIdentity

def realm : Id := r.descriptor.realmId

def captureId : Text := r.descriptor.captureId

/-- The receipt of the selected part. -/
def selectedReceipt : Except Refusal ObjectReceipt :=
  match r.selected with
  | some p => .ok (r.descriptor.expectedReceipt p)
  | none => .error .notAvailable

def selectedSize : Except Refusal ℕ := ObjectReceipt.sizeBytes <$> r.selectedReceipt

def selectedReceiptJson : Except Refusal Text := ObjectReceipt.toJson <$> r.selectedReceipt

/-- The text `[descriptor, part]`. -/
def resourceText (part : Option Text) : Text :=
  Json.array [Json.string r.descriptorIdentity, (part.map Json.string).getD "null".toList]

/-- Source: `parent_native.rs`, `resource_identity` -/
def resourceIdentity : Text := r.resourceText (r.selected.map fun p => p.partId.1)

/-- Source: `parent_native.rs`, `part_resource_identities` -/
def partResourceIdentities : List Text := r.expected.map fun p => r.resourceText (some p.partId)

/-- Source: `parent_native.rs`, `accepts_operation` -/
def acceptsOperation : Operation → Bool
  | .cleanupCancelled => r.selected.isNone
  | _ => r.selected.isSome

def objectKeys : List ObjectKey := r.expected.map fun p => ⟨p.partId, p.objectId, p.objectRevision⟩

variable {r} {r' : Request}

theorem resourceText_inj {p p' : Option Text} (h : r.resourceText p = r'.resourceText p') :
    r.descriptorIdentity = r'.descriptorIdentity ∧ p = p' := by
  unfold resourceText at h
  rw [Json.array_string_cons_inj, Json.array_singleton_inj] at h
  refine ⟨h.1, ?_⟩
  rcases p with _ | p <;> rcases p' with _ | p'
  · rfl
  · have hnull : 'n' = '"' := (List.cons.inj h.2).1
    cases hnull
  · have hnull : '"' = 'n' := (List.cons.inj h.2).1
    cases hnull
  · exact congrArg some (Json.string_inj.mp h.2)

/-- Requests under one text are about the same capture. -/
theorem captureId_of_resourceText {p p' : Option Text} (h : r.resourceText p = r'.resourceText p') :
    r.captureId = r'.captureId :=
  congrArg Subtype.val
    (CaptureDescriptor.captureId_of_descriptorIdentity (resourceText_inj h).1)

end Request

/-! ## Checks -/

variable (deps : Deps)

/-- Source: `parent_native.rs`, `Outcome::parse` -/
def Outcome.parse (bytes : Bytes) : Except Refusal Outcome :=
  if 8192 < bytes.length then .error .notAvailable
  else
    match deps.outcomeFromSlice bytes with
    | some o => .ok o
    | none => .error .notAvailable

/-- A receipt and a body agree with the part that the receipt names.
Source: `capture_binding.rs`, `verify_receipt_bytes` -/
def CaptureDescriptor.verifyReceiptBytes (d : CaptureDescriptor) (receiptJson bytes : Bytes) : Bool :=
  if 4096 < receiptJson.length ∨ 1048576 < bytes.length then false
  else
    match deps.receiptFromSlice receiptJson with
    | none => false
    | some rec =>
      match (d.parts.map Prod.snd).find? fun p => p.partId.1 = rec.partId with
      | none => false
      | some p =>
          rec.schemaVersion = version && rec.realmId = d.realmId.1 && rec.captureId = d.captureId.1 &&
            rec.objectId = p.objectId.1 && rec.objectRevision = p.objectRevision.1 &&
            rec.sha256 = p.sha256.1 && rec.sizeBytes = p.sizeBytes && rec.mediaType = media &&
            rec.requestFingerprint = d.requestFingerprint.1 &&
            rec.cancellationGeneration = d.cancellationGeneration && bytes.length = p.sizeBytes &&
            deps.sha256 bytes = p.sha256.1 && (fromUtf8 bytes).isSome

/-- Source: `parent_native.rs`, `Request::verify_body` -/
def Request.verifyBody (r : Request) (bytes : Bytes) : Except Refusal Unit := do
  let expected ← r.selectedReceipt
  if r.descriptor.verifyReceiptBytes deps (utf8 expected.toJson) bytes then .ok () else .error .conflict

/-- The receipt that an outcome holds for a request.
Source: `parent_native.rs`, `Outcome::receipt` -/
def Outcome.receipt (o : Outcome) (r : Request) : Except Refusal ObjectReceipt :=
  match o with
  | .stored s =>
      if s.realmId = r.realm ∧ s.intentId = r.descriptor.captureId then do
        let selected ← r.selectedReceipt
        if s.objectReceipt = selected then .ok s.objectReceipt else .error .notAvailable
      else .error .notAvailable
  | .cleaned _ => .error .notAvailable

namespace CancelledResource

def maxRevision : ℕ := 9007199254740991

/-- The part identities are compared as sorted lists.
Source: `parent_native.rs`, `CancelledResource::validate` -/
def validate (c : CancelledResource) (r : Request) : Except Refusal Unit :=
  let d := r.descriptor
  if r.selected.isSome ∨ c.kind ≠ "cancellation".toList ∨ c.intentId ≠ d.captureId ∨
      c.cancellation.schemaVersion ≠ version ∨
      c.cancellation.purpose ≠ "cancel_unpublished_capture".toList ∨ c.cancellation.realmId ≠ d.realmId ∨
      c.cancellation.captureId ≠ d.captureId ∨ c.cancellation.requestFingerprint ≠ d.requestFingerprint ∨
      ¬ (c.partIds.isPerm (r.expected.map Part.partId)) ∨
      c.cancellationGeneration ≠ d.cancellationGeneration + 1 ∨
      c.cancellation.cancellationGeneration ≠ c.cancellationGeneration ∨
      c.terminalIntentRevision < 2 ∨ maxRevision < c.terminalIntentRevision ∨
      c.cancellation.intentRevision ≠ c.terminalIntentRevision then .error .notAvailable
  else .ok ()

/-- Source: `parent_native.rs`, `CancelledResource::parse` -/
def parse (bytes : Bytes) (r : Request) : Except Refusal CancelledResource :=
  if 4096 < bytes.length then .error .notAvailable
  else
    match deps.cancelledFromSlice bytes with
    | none => .error .notAvailable
    | some c => do
        c.validate r
        .ok c

/-- Source: `parent_native.rs`, `CancelledResource::objects` -/
def objects (c : CancelledResource) (r : Request) : Except Refusal (List ObjectKey) := do
  c.validate r
  .ok r.objectKeys

/-- Source: `parent_native.rs`, `CancelledResource::verify_cleaned` -/
def verifyCleaned (c : CancelledResource) (r : Request) (o : Outcome) : Except Refusal Unit :=
  match o with
  | .stored _ => .error .notAvailable
  | .cleaned s => do
      let expected ← c.objects r
      if s.realmId ≠ r.realm ∨ s.intentId ≠ c.intentId ∨ s.cancelledOwnerOutcomeId ≠ c.ownerOutcomeId ∨
          s.cancellation ≠ c.cancellation ∨ s.cleanedObjects.length ≠ expected.length ∨
          expected.any (fun k => s.cleanedObjects.count k ≠ 1) then .error .notAvailable
      else .ok ()

variable {c : CancelledResource} {r : Request} {o : Outcome}

theorem selected_of_validate (h : c.validate r = .ok ()) : r.selected = none := by
  unfold validate at h
  dsimp only at h
  split_ifs at h with hbad
  apply Option.not_isSome_iff_eq_none.mp
  intro hselected
  exact hbad (Or.inl hselected)

/-- A verified outcome names the objects of the capture, each of them once and nothing else. -/
structure Names (r : Request) (s : Cleaned) : Prop where
  length_eq : s.cleanedObjects.length = r.objectKeys.length
  count_eq : ∀ k ∈ r.objectKeys, s.cleanedObjects.count k = 1

theorem of_verifyCleaned (h : c.verifyCleaned r o = .ok ()) :
    r.selected = none ∧ ∃ s, o = .cleaned s ∧ Names r s := by
  unfold verifyCleaned at h
  cases o with
  | stored s => cases h
  | cleaned s =>
      rcases hvalidate : c.validate r with x | _
      · simp only [objects, hvalidate] at h
        cases h
      · refine ⟨selected_of_validate hvalidate, s, rfl, ?_⟩
        simp only [objects, hvalidate] at h
        change (if _ then _ else _) = _ at h
        split_ifs at h with hbad
        simp only [not_or, ne_eq, not_not, Bool.not_eq_true, List.any_eq_false,
          decide_eq_true_eq] at hbad
        exact ⟨hbad.2.2.2.2.1, hbad.2.2.2.2.2⟩

end CancelledResource

end DiskArcana.Personal
