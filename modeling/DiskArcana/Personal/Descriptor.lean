import DiskArcana.Personal.Refused

/-!
# The identity of a descriptor

What `CaptureDescriptor::parse` accepts (`WireDescriptor.accepted`) are the descriptors of
`CaptureDescriptor` as they are written on the wire (`parse_eq_some`). The texts under which descriptors
and requests are kept say everything that is in them (`descriptorIdentity_inj`,
`Request.resourceIdentity_inj`), and no text is too long for the table they are kept in
(`descriptorIdentity_length`).
-/

namespace DiskArcana.Personal

open DiskArcana.Lib DiskArcana.Accounts

/-! ## The wire -/

/-- Source: `capture_binding.rs`, `Part` -/
structure WirePart where
  partId : Text
  role : Text
  objectId : Text
  objectRevision : Text
  sha256 : Text
  sizeBytes : ℕ
  mediaType : Text
  deriving DecidableEq

/-- Source: `capture_binding.rs`, `WireDescriptor` -/
structure WireDescriptor where
  schemaVersion : Text
  realmId : Text
  captureId : Text
  conversationId : Text
  messageId : Text
  expectedConversationRevision : ℕ
  operation : Text
  idempotencyKey : Text
  requestFingerprint : Text
  cancellationGeneration : ℕ
  parts : List WirePart
  deriving DecidableEq

namespace WireDescriptor

variable (w : WireDescriptor)

/-- Source: `capture_binding.rs`, `fingerprint_input` -/
def fingerprintInput : Text :=
  Json.array [Json.string version, Json.string w.realmId, Json.string w.operation,
    Json.string w.conversationId, Json.nat w.expectedConversationRevision,
    Json.array (w.parts.map fun p =>
      Json.array [Json.string p.role, Json.string p.sha256, Json.nat p.sizeBytes,
        Json.string p.mediaType])]

/-- Source: `capture_binding.rs`, `descriptor_identity` -/
def descriptorIdentity : Text :=
  Json.array [Json.string w.schemaVersion, Json.string w.realmId, Json.string w.captureId,
    Json.string w.conversationId, Json.string w.messageId, Json.nat w.expectedConversationRevision,
    Json.string w.operation, Json.string w.idempotencyKey, Json.string w.requestFingerprint,
    Json.nat w.cancellationGeneration,
    Json.array (w.parts.map fun p =>
      Json.array [Json.string p.partId, Json.string p.role, Json.string p.objectId,
        Json.string p.objectRevision, Json.string p.sha256, Json.nat p.sizeBytes,
        Json.string p.mediaType])]

end WireDescriptor

def Role.limit : Role → ℕ
  | .note => 65536
  | .attachment => 1048576

/-- The role of the part with number `i`. -/
def roleOf (i : ℕ) : Role := if i = 0 then .note else .attachment

/-- The checks on the part with number `i`.
Source: `capture_binding.rs`, the loop of `CaptureDescriptor::parse` -/
def WirePart.accepted (i : ℕ) (p : WirePart) : Bool :=
  p.role = (roleOf i).asText && p.mediaType = media && p.sizeBytes ≤ (roleOf i).limit &&
    [p.partId, p.objectId, p.objectRevision].all identifier && digest p.sha256

theorem WirePart.accepted_iff {i : ℕ} {p : WirePart} :
    p.accepted i = true ↔ p.role = (roleOf i).asText ∧ p.mediaType = media ∧
      p.sizeBytes ≤ (roleOf i).limit ∧ (identifier p.partId = true ∧ identifier p.objectId = true ∧
      identifier p.objectRevision = true) ∧ digest p.sha256 = true := by
  simp only [accepted, List.all_cons, List.all_nil, Bool.and_eq_true, Bool.and_true,
    decide_eq_true_eq, and_assoc]

section Parse

variable (deps : Deps) (wireFromSlice : Bytes → Option WireDescriptor)

/-- Source: `capture_binding.rs`, `CaptureDescriptor::parse` -/
def WireDescriptor.accepted (w : WireDescriptor) : Bool :=
  w.schemaVersion = version && w.operation = appendMessage &&
    [w.realmId, w.captureId, w.conversationId, w.messageId, w.idempotencyKey].all identifier &&
    digest w.requestFingerprint && w.expectedConversationRevision ≤ maxCounter &&
    w.cancellationGeneration ≤ maxCounter && !w.parts.isEmpty && w.parts.length ≤ 2 &&
    w.parts.zipIdx.all (fun (p, i) => WirePart.accepted i p) &&
    !(w.parts.length = 2 &&
      (w.parts[0]?.map WirePart.partId = w.parts[1]?.map WirePart.partId ||
        w.parts[0]?.map WirePart.objectId = w.parts[1]?.map WirePart.objectId)) &&
    deps.sha256 (utf8 w.fingerprintInput) = w.requestFingerprint

/-- What the checks say about the fields. -/
structure WireDescriptor.Checked (w : WireDescriptor) : Prop where
  schemaVersion : w.schemaVersion = version
  operation : w.operation = appendMessage
  realmId : identifier w.realmId = true
  captureId : identifier w.captureId = true
  conversationId : identifier w.conversationId = true
  messageId : identifier w.messageId = true
  idempotencyKey : identifier w.idempotencyKey = true
  requestFingerprint : digest w.requestFingerprint = true
  revision_le : w.expectedConversationRevision ≤ maxCounter
  generation_le : w.cancellationGeneration ≤ maxCounter
  note_isSome : w.parts[0]?.isSome
  length_le : w.parts.length ≤ 2
  part : ∀ (i : ℕ) (p : WirePart), w.parts[i]? = some p → p.accepted i = true
  distinct : ∀ p q : WirePart, w.parts[0]? = some p → w.parts[1]? = some q →
    p.partId ≠ q.partId ∧ p.objectId ≠ q.objectId

/-- A part that was accepted, with its identities. -/
def WirePart.toPart (p : WirePart) (i : ℕ) (h : p.accepted i = true) : Part where
  partId := ⟨p.partId, (accepted_iff.mp h).2.2.2.1.1⟩
  objectId := ⟨p.objectId, (accepted_iff.mp h).2.2.2.1.2.1⟩
  objectRevision := ⟨p.objectRevision, (accepted_iff.mp h).2.2.2.1.2.2⟩
  sha256 := ⟨p.sha256, (accepted_iff.mp h).2.2.2.2⟩
  sizeBytes := p.sizeBytes

variable {deps} {w : WireDescriptor}

theorem WireDescriptor.checked_of_accepted (h : w.accepted deps = true) : w.Checked := by
  simp only [accepted, Bool.and_eq_true, decide_eq_true_eq, List.all_cons, List.all_nil,
    Bool.and_true, Bool.not_eq_eq_eq_not, Bool.not_true, List.isEmpty_eq_false_iff] at h
  obtain ⟨⟨⟨⟨⟨⟨⟨⟨⟨⟨hversion, hoperation⟩, hids⟩, hdigest⟩, hrevision⟩, hgeneration⟩, hne⟩, hlength⟩,
    hparts⟩, hdistinct⟩, _⟩ := h
  refine ⟨hversion, hoperation, hids.1, hids.2.1, hids.2.2.1, hids.2.2.2.1, hids.2.2.2.2, hdigest,
    hrevision, hgeneration, ?_, hlength, ?_, ?_⟩
  · obtain ⟨p, ps, hp⟩ := List.exists_cons_of_ne_nil hne
    rw [hp]
    rfl
  · intro i p hp
    exact List.all_eq_true.mp hparts (p, i) (List.mem_zipIdx_iff_getElem?.mpr hp)
  · intro p q hp hq
    have htwo : w.parts.length = 2 := by
      obtain ⟨hlt, _⟩ := List.getElem?_eq_some_iff.mp hq
      omega
    rw [hp, hq] at hdistinct
    simp only [htwo, decide_true, Bool.true_and, Option.map_some, Option.some.injEq,
      Bool.or_eq_false_iff, decide_eq_false_iff_not] at hdistinct
    exact hdistinct

/-- The descriptor that is on the wire. -/
def WireDescriptor.toDescriptor (w : WireDescriptor) (h : w.Checked) : CaptureDescriptor where
  realmId := ⟨w.realmId, h.realmId⟩
  captureId := ⟨w.captureId, h.captureId⟩
  conversationId := ⟨w.conversationId, h.conversationId⟩
  messageId := ⟨w.messageId, h.messageId⟩
  expectedConversationRevision := w.expectedConversationRevision
  idempotencyKey := ⟨w.idempotencyKey, h.idempotencyKey⟩
  requestFingerprint := ⟨w.requestFingerprint, h.requestFingerprint⟩
  cancellationGeneration := w.cancellationGeneration
  note := (w.parts[0]?.get h.note_isSome).toPart 0 (h.part 0 _ (Option.some_get _).symm)
  attachment := w.parts[1]?.pmap (fun p hp => p.toPart 1 hp) (h.part 1)
  revision_le := h.revision_le
  generation_le := h.generation_le
  note_le := (WirePart.accepted_iff.mp (h.part 0 _ (Option.some_get _).symm)).2.2.1
  attachment_le := by
    intro p hp
    obtain ⟨q, _, hq, rfl⟩ := Option.pmap_eq_some_iff.mp hp
    exact (WirePart.accepted_iff.mp (h.part 1 q hq)).2.2.1
  distinct := by
    intro p hp
    obtain ⟨q, _, hq, rfl⟩ := Option.pmap_eq_some_iff.mp hp
    obtain ⟨hpart, hobject⟩ := h.distinct _ q (Option.some_get h.note_isSome).symm hq
    exact ⟨fun heq => hpart (congrArg Subtype.val heq), fun heq => hobject (congrArg Subtype.val heq)⟩

variable (deps) in
/-- Source: `capture_binding.rs`, `CaptureDescriptor::parse` -/
def CaptureDescriptor.parse (bytes : Bytes) : Option CaptureDescriptor :=
  match wireFromSlice bytes with
  | none => none
  | some w =>
      if h : w.accepted deps = true then some (w.toDescriptor (WireDescriptor.checked_of_accepted h))
      else none

end Parse

/-! ## Descriptors as they are written -/

def Part.toWire (role : Role) (p : Part) : WirePart where
  partId := p.partId
  role := role.asText
  objectId := p.objectId
  objectRevision := p.objectRevision
  sha256 := p.sha256
  sizeBytes := p.sizeBytes
  mediaType := media

def CaptureDescriptor.toWire (d : CaptureDescriptor) : WireDescriptor where
  schemaVersion := version
  realmId := d.realmId
  captureId := d.captureId
  conversationId := d.conversationId
  messageId := d.messageId
  expectedConversationRevision := d.expectedConversationRevision
  operation := appendMessage
  idempotencyKey := d.idempotencyKey
  requestFingerprint := d.requestFingerprint
  cancellationGeneration := d.cancellationGeneration
  parts := d.parts.map fun (role, p) => p.toWire role

section Written

variable {deps : Deps} {wireFromSlice : Bytes → Option WireDescriptor} {bytes : Bytes}
  {w : WireDescriptor} {d d' : CaptureDescriptor}

theorem WirePart.toWire_toPart {p : WirePart} {i : ℕ} (h : p.accepted i = true) :
    (p.toPart i h).toWire (roleOf i) = p := by
  obtain ⟨hrole, hmedia, _⟩ := accepted_iff.mp h
  obtain ⟨partId, role, objectId, objectRevision, sha256, sizeBytes, mediaType⟩ := p
  obtain rfl : role = _ := hrole
  obtain rfl : mediaType = media := hmedia
  rfl

theorem WireDescriptor.toWire_toDescriptor (h : w.Checked) : (w.toDescriptor h).toWire = w := by
  have hversion := h.schemaVersion
  have hoperation := h.operation
  have hlength := h.length_le
  have hsome := h.note_isSome
  obtain ⟨schemaVersion, realmId, captureId, conversationId, messageId, revision, operation,
    idempotencyKey, fingerprint, generation, parts⟩ := w
  obtain rfl : schemaVersion = version := hversion
  obtain rfl : operation = appendMessage := hoperation
  have hparts : (toDescriptor _ h).toWire.parts = parts := by
    rcases parts with _ | ⟨p, _ | ⟨q, _ | ⟨r, parts⟩⟩⟩
    · cases hsome
    · show [_] = [_]
      rw [List.cons.injEq]
      exact ⟨WirePart.toWire_toPart (h.part 0 p rfl), rfl⟩
    · show [_, _] = [_, _]
      rw [List.cons.injEq, List.cons.injEq]
      exact ⟨WirePart.toWire_toPart (h.part 0 p rfl), WirePart.toWire_toPart (h.part 1 q rfl), rfl⟩
    · simp only [List.length_cons] at hlength
      omega
  unfold CaptureDescriptor.toWire at hparts ⊢
  rw [WireDescriptor.mk.injEq]
  exact ⟨rfl, rfl, rfl, rfl, rfl, rfl, rfl, rfl, rfl, rfl, hparts⟩

theorem Role.asText_inj {role role' : Role} (h : role.asText = role'.asText) : role = role' := by
  cases role <;> cases role'
  · rfl
  · exact absurd h (by decide)
  · exact absurd h (by decide)
  · rfl

theorem Part.toWire_inj {role role' : Role} {p q : Part} (h : p.toWire role = q.toWire role') :
    role = role' ∧ p = q := by
  simp only [toWire, WirePart.mk.injEq] at h
  obtain ⟨hpart, hrole, hobject, hrevision, hsha256, hsize, _⟩ := h
  refine ⟨Role.asText_inj hrole, ?_⟩
  rw [Part.mk.injEq]
  exact ⟨Subtype.ext hpart, Subtype.ext hobject, Subtype.ext hrevision, Subtype.ext hsha256, hsize⟩

/-- A descriptor is what is written of it. -/
theorem CaptureDescriptor.toWire_inj : d.toWire = d'.toWire ↔ d = d' := by
  constructor
  · intro h
    simp only [toWire, WireDescriptor.mk.injEq, true_and] at h
    obtain ⟨hrealm, hcapture, hconversation, hmessage, hrevision, hkey, hfingerprint, hgeneration,
      hparts⟩ := h
    have hparts : d.parts = d'.parts := by
      refine List.map_injective_iff.mpr ?_ hparts
      rintro ⟨role, p⟩ ⟨role', q⟩ hpq
      obtain ⟨rfl, rfl⟩ := Part.toWire_inj hpq
      rfl
    obtain ⟨hnote, hattachment⟩ := List.cons.inj hparts
    have hattachment : d.attachment = d'.attachment := by
      rcases ha : d.attachment with _ | p <;> rcases ha' : d'.attachment with _ | q
      · rfl
      · simp [ha, ha'] at hattachment
      · simp [ha, ha'] at hattachment
      · simpa [ha, ha'] using hattachment
    rw [CaptureDescriptor.mk.injEq]
    exact ⟨Subtype.ext hrealm, Subtype.ext hcapture, Subtype.ext hconversation, Subtype.ext hmessage,
      hrevision, Subtype.ext hkey, Subtype.ext hfingerprint, hgeneration, (Prod.mk.inj hnote).2,
      hattachment⟩
  · rintro rfl
    rfl

theorem CaptureDescriptor.parts_toWire_of_none (h : d.attachment = none) :
    d.toWire.parts = [d.note.toWire .note] := by
  simp [toWire, parts, h]

theorem CaptureDescriptor.parts_toWire_of_some {p : Part} (h : d.attachment = some p) :
    d.toWire.parts = [d.note.toWire .note, p.toWire .attachment] := by
  simp [toWire, parts, h]

theorem Part.accepted_toWire {i : ℕ} {p : Part} (h : p.sizeBytes ≤ (roleOf i).limit) :
    (p.toWire (roleOf i)).accepted i = true :=
  WirePart.accepted_iff.mpr ⟨rfl, rfl, h, ⟨p.partId.2, p.objectId.2, p.objectRevision.2⟩, p.sha256.2⟩

/-- What is written of a descriptor passes the checks, up to the fingerprint. -/
theorem CaptureDescriptor.accepted_toWire
    (h : deps.sha256 (utf8 d.toWire.fingerprintInput) = d.requestFingerprint) :
    d.toWire.accepted deps = true := by
  have hids : [d.realmId.1, d.captureId.1, d.conversationId.1, d.messageId.1,
      d.idempotencyKey.1].all identifier = true := by
    simp only [List.all_cons, List.all_nil, Bool.and_true, Bool.and_eq_true]
    exact ⟨d.realmId.2, d.captureId.2, d.conversationId.2, d.messageId.2, d.idempotencyKey.2⟩
  have hnote : (d.note.toWire .note).accepted 0 = true := Part.accepted_toWire d.note_le
  have hparts : d.toWire.parts.length ≤ 2 ∧
      (d.toWire.parts.zipIdx.all fun (p, i) => WirePart.accepted i p) = true ∧
      (!(decide (d.toWire.parts.length = 2) &&
        (decide (d.toWire.parts[0]?.map WirePart.partId = d.toWire.parts[1]?.map WirePart.partId) ||
        decide (d.toWire.parts[0]?.map WirePart.objectId =
          d.toWire.parts[1]?.map WirePart.objectId)))) = true := by
    rcases ha : d.attachment with _ | q
    · rw [parts_toWire_of_none ha]
      exact ⟨Nat.le_succ 1, by simp [hnote], by simp⟩
    · have hq : (q.toWire .attachment).accepted 1 = true :=
        Part.accepted_toWire (d.attachment_le q ha)
      obtain ⟨hpart, hobject⟩ := d.distinct q ha
      have hpart' : (d.note.toWire .note).partId ≠ (q.toWire .attachment).partId :=
        fun h => hpart (Subtype.ext h)
      have hobject' : (d.note.toWire .note).objectId ≠ (q.toWire .attachment).objectId :=
        fun h => hobject (Subtype.ext h)
      rw [parts_toWire_of_some ha]
      exact ⟨le_rfl, by simp [hnote, hq], by simp [hpart', hobject']⟩
  have hnonempty : (!d.toWire.parts.isEmpty) = true := rfl
  simp only [WireDescriptor.accepted, Bool.and_eq_true, decide_eq_true_eq]
  exact ⟨⟨⟨⟨⟨⟨⟨⟨⟨⟨rfl, rfl⟩, hids⟩, d.requestFingerprint.2⟩, d.revision_le⟩, d.generation_le⟩,
    hnonempty⟩, hparts.1⟩, hparts.2.1⟩, hparts.2.2⟩, h⟩

/-- **The descriptors that are accepted** are those of `CaptureDescriptor` whose fingerprint is right. -/
theorem CaptureDescriptor.parse_eq_some :
    CaptureDescriptor.parse deps wireFromSlice bytes = some d ↔
      wireFromSlice bytes = some d.toWire ∧
        deps.sha256 (utf8 d.toWire.fingerprintInput) = d.requestFingerprint := by
  unfold parse
  constructor
  · intro h
    split at h
    · cases h
    · rename_i w hw
      split_ifs at h with haccepted
      obtain rfl := Option.some.inj h
      rw [WireDescriptor.toWire_toDescriptor]
      have hsha := haccepted
      simp only [WireDescriptor.accepted, Bool.and_eq_true, decide_eq_true_eq] at hsha
      exact ⟨hw, hsha.2⟩
  · rintro ⟨hw, hsha⟩
    rw [hw]
    dsimp only
    rw [dif_pos (accepted_toWire hsha), Option.some.injEq, ← toWire_inj,
      WireDescriptor.toWire_toDescriptor]

end Written

/-! ## Identities -/

section Identity

variable {deps : Deps} {wireFromSlice : Bytes → Option WireDescriptor} {bytes bytes' : Bytes}
  {d d' : CaptureDescriptor}

/-- A part as an item of the identity. -/
def WirePart.identity (p : WirePart) : Text :=
  Json.array [Json.string p.partId, Json.string p.role, Json.string p.objectId,
    Json.string p.objectRevision, Json.string p.sha256, Json.nat p.sizeBytes, Json.string p.mediaType]

theorem WirePart.delimits_identity (p q : WirePart) : Json.Delimits p.identity q.identity := by
  apply Json.delimits_array
  simp [Json.delimits_string, Json.delimits_nat]

theorem WirePart.identity_inj {p q : WirePart} (h : p.identity = q.identity) : p = q := by
  unfold identity at h
  rw [Json.array_cons_inj (by simp [Json.delimits_string, Json.delimits_nat])] at h
  simp only [List.cons.injEq, Json.string_inj, Json.nat_inj, and_true] at h
  obtain ⟨hpart, hrole, hobject, hrevision, hsha256, hsize, hmedia⟩ := h
  rw [WirePart.mk.injEq]
  exact ⟨hpart, hrole, hobject, hrevision, hsha256, hsize, hmedia⟩

theorem WirePart.delimits_of_mem_zip {ps qs : List WirePart} :
    ∀ pair ∈ (ps.map identity).zip (qs.map identity), Json.Delimits pair.1 pair.2 := by
  intro pair hpair
  obtain ⟨p, _, hp⟩ := List.mem_map.mp (List.of_mem_zip hpair).1
  obtain ⟨q, _, hq⟩ := List.mem_map.mp (List.of_mem_zip hpair).2
  rw [← hp, ← hq]
  exact p.delimits_identity q

/-- The identity says what every field of a descriptor is. -/
theorem WireDescriptor.descriptorIdentity_inj {w w' : WireDescriptor} {p q : WirePart}
    {ps qs : List WirePart} (hparts : w.parts = p :: ps) (hparts' : w'.parts = q :: qs)
    (h : w.descriptorIdentity = w'.descriptorIdentity) : w = w' := by
  obtain ⟨schemaVersion, realmId, captureId, conversationId, messageId, revision, operation,
    idempotencyKey, fingerprint, generation, parts⟩ := w
  obtain ⟨schemaVersion', realmId', captureId', conversationId', messageId', revision', operation',
    idempotencyKey', fingerprint', generation', parts'⟩ := w'
  obtain rfl : parts = p :: ps := hparts
  obtain rfl : parts' = q :: qs := hparts'
  have hitems := @WirePart.delimits_of_mem_zip (p :: ps) (q :: qs)
  have hlast : Json.Delimits (Json.array ((p :: ps).map WirePart.identity))
      (Json.array ((q :: qs).map WirePart.identity)) := Json.delimits_array hitems
  have hparts : ∀ ps : List WirePart, (ps.map fun p =>
      Json.array [Json.string p.partId, Json.string p.role, Json.string p.objectId,
        Json.string p.objectRevision, Json.string p.sha256, Json.nat p.sizeBytes,
        Json.string p.mediaType]) = ps.map WirePart.identity := fun _ => rfl
  simp only [descriptorIdentity, hparts] at h
  rw [Json.array_cons_inj (by simp only [List.zip_cons_cons, List.zip_nil_right, List.forall_mem_cons,
    Json.delimits_string, Json.delimits_nat, hlast, List.not_mem_nil, false_imp_iff, implies_true,
    and_self])] at h
  simp only [List.cons.injEq, Json.string_inj, Json.nat_inj, and_true] at h
  obtain ⟨hschema, hrealm, hcapture, hconversation, hmessage, hrevision, hoperation, hkey,
    hfingerprint, hgeneration, hlast⟩ := h
  rw [List.map_cons, List.map_cons, Json.array_cons_inj hitems, ← List.map_cons, ← List.map_cons]
    at hlast
  rw [WireDescriptor.mk.injEq]
  exact ⟨hschema, hrealm, hcapture, hconversation, hmessage, hrevision, hoperation, hkey,
    hfingerprint, hgeneration, List.map_injective_iff.mpr (fun _ _ => WirePart.identity_inj) hlast⟩

/-- The identity of a descriptor is that of what is on the wire. -/
theorem CaptureDescriptor.descriptorIdentity_toWire (d : CaptureDescriptor) :
    d.toWire.descriptorIdentity = d.descriptorIdentity := by
  unfold WireDescriptor.descriptorIdentity descriptorIdentity
  simp only [toWire, List.map_map]
  rfl

/-- **Descriptors under one identity are the same.** -/
theorem CaptureDescriptor.descriptorIdentity_inj :
    d.descriptorIdentity = d'.descriptorIdentity ↔ d = d' := by
  constructor
  · intro h
    rw [← descriptorIdentity_toWire, ← descriptorIdentity_toWire] at h
    exact toWire_inj.mp (WireDescriptor.descriptorIdentity_inj rfl rfl h)
  · rintro rfl
    rfl

end Identity

/-! ## Lengths -/

section Length

variable {d : CaptureDescriptor} {s : Text}

theorem escape_of_hexLower {c : Char} (h : hexLower c = true) : Json.escape c = [c] := by
  have hlow : 48 ≤ c.toNat ∧ c ≠ '\\' := by
    simp only [hexLower, Bool.or_eq_true, Bool.and_eq_true, decide_eq_true_eq] at h
    rcases h with hdigit | ⟨ha, _⟩
    · have hrange := Char.isDigit_iff_toNat.mp hdigit
      refine ⟨hrange.1, ?_⟩
      rintro rfl
      exact absurd hrange.2 (by decide)
    · have hle : 97 ≤ c.toNat := ha
      refine ⟨by omega, ?_⟩
      rintro rfl
      exact absurd hle (by decide)
  refine Json.escape_of_plain (by omega) ?_ hlow.2
  rintro rfl
  exact absurd hlow.1 (by decide)

theorem length_identifier (h : identifier s = true) : (Json.string s).length = 38 := by
  simp only [identifier, Bool.and_eq_true, decide_eq_true_eq] at h
  obtain ⟨hlength, hchars⟩ := h
  rw [Json.length_string, hlength]
  intro c hc
  obtain ⟨i, hi⟩ := List.mem_iff_getElem?.mp hc
  have hchar := List.all_eq_true.mp hchars (c, i) (List.mem_zipIdx_iff_getElem?.mpr hi)
  dsimp only at hchar
  split_ifs at hchar
  · obtain rfl : c = '-' := by simpa using hchar
    decide
  · exact escape_of_hexLower hchar

theorem length_digest (h : digest s = true) : (Json.string s).length = 66 := by
  simp only [digest, Bool.and_eq_true, decide_eq_true_eq] at h
  rw [Json.length_string, h.1]
  exact fun c hc => escape_of_hexLower (List.all_eq_true.mp h.2 c hc)

theorem length_counter {n : ℕ} (h : n ≤ maxCounter) : (Json.nat n).length ≤ 16 :=
  (Json.length_nat_le (by decide)).mpr (lt_of_le_of_lt h (by decide))

/-- The identity of a part is 225 characters long at most as a note, and 233 as an attachment. -/
theorem length_partIdentity {role : Role} {p : Part} {k : ℕ} (hk : 0 < k) (h : p.sizeBytes < 10 ^ k) :
    (p.toWire role).identity.length ≤ 214 + (Json.string role.asText).length + k := by
  have hsize := (Json.length_nat_le hk).mpr h
  have hmedia : (Json.string media).length = 26 := by decide
  unfold WirePart.identity
  rw [Json.length_array]
  simp only [Part.toWire, List.map_cons, List.map_nil, List.sum_cons, List.sum_nil,
    List.length_cons, List.length_nil, length_identifier p.partId.2, length_identifier p.objectId.2,
    length_identifier p.objectRevision.2, length_digest p.sha256.2, hmedia]
  omega

theorem length_partIdentities (d : CaptureDescriptor) :
    (Json.array (d.toWire.parts.map WirePart.identity)).length ≤ 461 := by
  have hnote : (d.note.toWire .note).identity.length ≤ 225 :=
    length_partIdentity (k := 5) (by decide) (lt_of_le_of_lt d.note_le (by decide))
  rcases ha : d.attachment with _ | p
  · rw [CaptureDescriptor.parts_toWire_of_none ha, List.map_singleton, Json.length_array]
    simp only [List.map_cons, List.map_nil, List.sum_cons, List.sum_nil, List.length_nil]
    omega
  · have hattachment : (p.toWire .attachment).identity.length ≤ 233 :=
      length_partIdentity (k := 7) (by decide) (lt_of_le_of_lt (d.attachment_le p ha) (by decide))
    rw [CaptureDescriptor.parts_toWire_of_some ha, List.map_cons, List.map_singleton,
      Json.length_array]
    simp only [List.map_cons, List.map_nil, List.sum_cons, List.sum_nil, List.length_cons,
      List.length_nil]
    omega

theorem CaptureDescriptor.length_descriptorIdentity (d : CaptureDescriptor) :
    d.descriptorIdentity.length ≤ 798 := by
  have hparts := length_partIdentities d
  have hversion : (Json.string version).length = 21 := by decide
  have hoperation : (Json.string appendMessage).length = 16 := by decide
  have hrevision := length_counter d.revision_le
  have hgeneration := length_counter d.generation_le
  have hidentity : d.descriptorIdentity = Json.array [Json.string version, Json.string d.realmId,
      Json.string d.captureId, Json.string d.conversationId, Json.string d.messageId,
      Json.nat d.expectedConversationRevision, Json.string appendMessage,
      Json.string d.idempotencyKey, Json.string d.requestFingerprint,
      Json.nat d.cancellationGeneration, Json.array (d.toWire.parts.map WirePart.identity)] := by
    rw [← descriptorIdentity_toWire]
    rfl
  rw [hidentity, Json.length_array]
  simp only [List.map_cons, List.map_nil, List.sum_cons, List.sum_nil, List.length_cons,
    List.length_nil, length_identifier d.realmId.2, length_identifier d.captureId.2,
    length_identifier d.conversationId.2, length_identifier d.messageId.2,
    length_identifier d.idempotencyKey.2, length_digest d.requestFingerprint.2, hversion, hoperation]
  omega

/-- The condition on an identity in the table of bindings. The length of a text in SQLite is the number
of its characters up to the first NUL.
Source: `migrations/0002_capture_fresh.sql`, `capture_binding` -/
def identityCheck (identity : Text) : Bool :=
  let length := (identity.takeWhile (· ≠ '\x00')).length
  1 ≤ length && length ≤ 798

theorem CaptureDescriptor.identityCheck_descriptorIdentity (d : CaptureDescriptor) :
    identityCheck d.descriptorIdentity = true := by
  have hle := d.length_descriptorIdentity
  have hprefix := (List.takeWhile_prefix (l := d.descriptorIdentity) (· ≠ '\x00')).length_le
  have hpos : 1 ≤ (d.descriptorIdentity.takeWhile (· ≠ '\x00')).length := Nat.le_add_left 1 _
  simp only [identityCheck, Bool.and_eq_true, decide_eq_true_eq]
  exact ⟨hpos, le_trans hprefix hle⟩

end Length

/-! ## Requests -/

namespace Request

section

variable (deps : Deps) (wireFromSlice : Bytes → Option WireDescriptor)

/-- Source: `parent_native.rs`, `Request::parse` -/
def parse (descriptor : Bytes) (partId : Option Text) : Except Refusal Request :=
  if 8192 < descriptor.length then .error .notAvailable
  else
    match CaptureDescriptor.parse deps wireFromSlice descriptor with
    | none => .error .notAvailable
    | some d =>
        match partId with
        | none => .ok ⟨d, none, nofun⟩
        | some id =>
            match h : (d.parts.map Prod.snd).find? fun p => p.partId.1 = id with
            | none => .error .notAvailable
            | some p => .ok ⟨d, some p, fun _ hq => Option.some.inj hq ▸ List.mem_of_find?_eq_some h⟩

end

variable {deps : Deps} {wireFromSlice : Bytes → Option WireDescriptor} {bytes : Bytes}
  {partId : Option Text} {r r' : Request}

/-- The parts of a descriptor have different identities. -/
theorem part_inj {d : CaptureDescriptor} {p q : Part} (hp : p ∈ d.parts.map Prod.snd)
    (hq : q ∈ d.parts.map Prod.snd) (h : p.partId = q.partId) : p = q := by
  rcases ha : d.attachment with _ | a
  · have hparts : d.parts.map Prod.snd = [d.note] := by simp [CaptureDescriptor.parts, ha]
    rw [hparts, List.mem_singleton] at hp hq
    rw [hp, hq]
  · have hparts : d.parts.map Prod.snd = [d.note, a] := by simp [CaptureDescriptor.parts, ha]
    have hdistinct := (d.distinct a ha).1
    rw [hparts, List.mem_pair] at hp hq
    rcases hp with rfl | rfl <;> rcases hq with rfl | rfl
    · rfl
    · exact absurd h hdistinct
    · exact absurd h.symm hdistinct
    · rfl

theorem find?_partId {d : CaptureDescriptor} {p : Part} (hp : p ∈ d.parts.map Prod.snd) :
    ((d.parts.map Prod.snd).find? fun q => q.partId.1 = p.partId.1) = some p := by
  rcases hfind : (d.parts.map Prod.snd).find? fun q => q.partId.1 = p.partId.1 with _ | q
  · have hne := List.find?_eq_none.mp hfind p hp
    rw [decide_eq_true_eq] at hne
    exact absurd rfl hne
  · have hq := List.find?_some hfind
    rw [hfind, part_inj (List.mem_of_find?_eq_some hfind) hp (Subtype.ext (of_decide_eq_true hq))]

/-- **Requests under one identity** are about one descriptor and select the same part. -/
theorem resourceIdentity_inj :
    r.resourceIdentity = r'.resourceIdentity ↔
      r.descriptor = r'.descriptor ∧ r.selected = r'.selected := by
  constructor
  · intro h
    obtain ⟨hdescriptor, hpart⟩ := resourceText_inj h
    have hdescriptor := CaptureDescriptor.descriptorIdentity_inj.mp hdescriptor
    refine ⟨hdescriptor, ?_⟩
    rcases hp : r.selected with _ | p <;> rcases hq : r'.selected with _ | q
    · rfl
    · simp [hp, hq] at hpart
    · simp [hp, hq] at hpart
    · simp only [hp, hq, Option.map_some, Option.some.injEq] at hpart
      have hmem := r'.selected_mem q hq
      rw [← hdescriptor] at hmem
      rw [part_inj (r.selected_mem p hp) hmem (Subtype.ext hpart)]
  · rintro ⟨hdescriptor, hselected⟩
    unfold resourceIdentity resourceText descriptorIdentity
    rw [hdescriptor, hselected]

/-- A request is the descriptor with one of its parts, or with none. -/
theorem descriptor_of_parse (h : parse deps wireFromSlice bytes partId = .ok r) :
    bytes.length ≤ 8192 ∧ CaptureDescriptor.parse deps wireFromSlice bytes = some r.descriptor := by
  unfold parse at h
  split_ifs at h with hlength
  refine ⟨Nat.not_lt.mp hlength, ?_⟩
  split at h
  · cases h
  · rename_i d hd
    rw [hd]
    split at h
    · cases h
      rfl
    · split at h
      · cases h
      · cases h
        rfl

/-- Every part of a parsed descriptor can be selected. -/
theorem parse_partId {d : CaptureDescriptor} {p : Part} (hlength : bytes.length ≤ 8192)
    (hd : CaptureDescriptor.parse deps wireFromSlice bytes = some d)
    (hp : p ∈ d.parts.map Prod.snd) :
    ∃ r', parse deps wireFromSlice bytes (some p.partId) = .ok r' ∧ r'.descriptor = d ∧
      r'.selected = some p := by
  refine ⟨⟨d, some p, fun _ hq => Option.some.inj hq ▸ hp⟩, ?_, rfl, rfl⟩
  unfold parse
  rw [if_neg (Nat.not_lt.mpr hlength), hd]
  dsimp only
  split
  · rename_i hnone
    rw [find?_partId hp] at hnone
    cases hnone
  · rename_i q hq
    rw [find?_partId hp] at hq
    cases hq
    rfl

end Request

/-- Descriptors and requests that were read are kept under texts that say what they are, and that the
table takes. -/
structure IdentityLaw (deps : Deps) (wireFromSlice : Bytes → Option WireDescriptor) : Prop where
  descriptors : ∀ bytes bytes' d d', CaptureDescriptor.parse deps wireFromSlice bytes = some d →
    CaptureDescriptor.parse deps wireFromSlice bytes' = some d' →
    (d.descriptorIdentity = d'.descriptorIdentity ↔ d.toWire = d'.toWire)
  resources : ∀ bytes partId bytes' partId' r r',
    Request.parse deps wireFromSlice bytes partId = .ok r →
    Request.parse deps wireFromSlice bytes' partId' = .ok r' →
    (r.resourceIdentity = r'.resourceIdentity ↔
      r.descriptor.toWire = r'.descriptor.toWire ∧ r.selected = r'.selected)
  parts : ∀ bytes partId r, Request.parse deps wireFromSlice bytes partId = .ok r →
    List.Forall₂ (fun (p : Part) identity => ∃ r',
        Request.parse deps wireFromSlice bytes (some p.partId) = .ok r' ∧
          r'.resourceIdentity = identity)
      r.expected r.partResourceIdentities
  storable : ∀ bytes d, CaptureDescriptor.parse deps wireFromSlice bytes = some d →
    identityCheck d.descriptorIdentity = true

/-- **The identities are faithful**, and fit the table. -/
theorem identityLaw (deps : Deps) (wireFromSlice : Bytes → Option WireDescriptor) :
    IdentityLaw deps wireFromSlice where
  descriptors := by
    intro bytes bytes' d d' _ _
    rw [CaptureDescriptor.descriptorIdentity_inj, CaptureDescriptor.toWire_inj]
  resources := by
    intro bytes partId bytes' partId' r r' _ _
    rw [Request.resourceIdentity_inj, CaptureDescriptor.toWire_inj]
  parts := by
    intro bytes partId r hr
    obtain ⟨hlength, hd⟩ := Request.descriptor_of_parse hr
    unfold Request.partResourceIdentities
    rw [List.forall₂_map_right_iff]
    apply List.forall₂_same.mpr
    intro p hp
    obtain ⟨r', hr', hdescriptor, hselected⟩ := Request.parse_partId hlength hd hp
    refine ⟨r', hr', ?_⟩
    unfold Request.resourceIdentity Request.resourceText Request.descriptorIdentity
    rw [hdescriptor, hselected]
    rfl
  storable := fun _ d _ => d.identityCheck_descriptorIdentity

/-! ## The capture of a note -/

section Example

def WirePart.toJson (p : WirePart) : Text :=
  Json.object [field "partId" (Json.string p.partId), field "role" (Json.string p.role),
    field "objectId" (Json.string p.objectId), field "objectRevision" (Json.string p.objectRevision),
    field "sha256" (Json.string p.sha256), field "sizeBytes" (Json.nat p.sizeBytes),
    field "mediaType" (Json.string p.mediaType)]

def WireDescriptor.toJson (w : WireDescriptor) : Text :=
  Json.object [field "schemaVersion" (Json.string w.schemaVersion),
    field "realmId" (Json.string w.realmId), field "captureId" (Json.string w.captureId),
    field "conversationId" (Json.string w.conversationId), field "messageId" (Json.string w.messageId),
    field "expectedConversationRevision" (Json.nat w.expectedConversationRevision),
    field "operation" (Json.string w.operation), field "idempotencyKey" (Json.string w.idempotencyKey),
    field "requestFingerprint" (Json.string w.requestFingerprint),
    field "cancellationGeneration" (Json.nat w.cancellationGeneration),
    field "parts" (Json.array (w.parts.map WirePart.toJson))]

/-- What is read and computed where the capture of the note is sent. -/
def wireOfNote (bytes : Bytes) : Option WireDescriptor :=
  if bytes = utf8 noteCapture.toWire.toJson then some noteCapture.toWire else none

def fingerprintDeps : Deps :=
  { noteDeps with
    sha256 := fun bytes =>
      if bytes = utf8 noteCapture.toWire.fingerprintInput then noteCapture.requestFingerprint else [] }

theorem parse_noteCapture :
    CaptureDescriptor.parse fingerprintDeps wireOfNote (utf8 noteCapture.toWire.toJson) =
      some noteCapture := by
  refine CaptureDescriptor.parse_eq_some.mpr ⟨?_, ?_⟩
  · unfold wireOfNote
    rw [if_pos rfl]
  · unfold fingerprintDeps
    dsimp only
    rw [if_pos rfl]

/-- The capture and its note are kept under different texts, and the identity fits the table. -/
theorem identityLaw_note :
    Request.resourceIdentity ⟨noteCapture, none, nofun⟩ ≠ noteRequest.resourceIdentity ∧
      identityCheck noteCapture.descriptorIdentity = true := by
  have hlaw := identityLaw fingerprintDeps wireOfNote
  have hlength : (utf8 noteCapture.toWire.toJson).length ≤ 8192 := by decide +kernel
  have hnone : Request.parse fingerprintDeps wireOfNote (utf8 noteCapture.toWire.toJson) none =
      .ok ⟨noteCapture, none, nofun⟩ := by
    unfold Request.parse
    rw [if_neg (Nat.not_lt.mpr hlength), parse_noteCapture]
  obtain ⟨r, hr, hdescriptor, hselected⟩ :=
    Request.parse_partId hlength parse_noteCapture (noteRequest.selected_mem note rfl)
  have hrequest : r = noteRequest := by
    obtain ⟨d, selected, hmem⟩ := r
    obtain rfl : d = noteCapture := hdescriptor
    obtain rfl : selected = some note := hselected
    rfl
  rw [hrequest] at hr
  refine ⟨fun h => ?_, hlaw.storable _ _ parse_noteCapture⟩
  have hsame := ((hlaw.resources _ _ _ _ _ _ hnone hr).mp h).2
  cases hsame

end Example

end DiskArcana.Personal
