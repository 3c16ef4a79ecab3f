import DiskArcana.Personal.Confirmation
import DiskArcana.Personal.Descriptor

/-!
# Sets of receipts and of cleaned objects

The receipts of a capture are checked one after the other, with the identities of the parts that have had
theirs in a set (`verifyReceiptSet`); the objects of a cleanup are counted (`verifyCleaned`). Both come
to a comparison of multisets, because the parts of a descriptor have different identities
(`verifyReceiptSet_iff`, `verifyCleaned_iff`). A cleanup is also refused when the cancellation does not
fit the request, whatever the outcome says.
-/

namespace DiskArcana.Personal

open DiskArcana.Lib DiskArcana.Accounts

variable {deps : Deps} {d : CaptureDescriptor} {p : Part} {receipt body : Bytes}
  {items : List (Bytes × Bytes)}

section

variable (deps)

/-- The loop over the receipts; `seen` are the parts of those before.
Source: `capture_binding.rs`, the loop of `verify_receipt_set` -/
def CaptureDescriptor.verifyItems (d : CaptureDescriptor) : List Text → List (Bytes × Bytes) → Bool
  | _, [] => true
  | seen, (receipt, body) :: items =>
      d.verifyReceiptBytes deps receipt body &&
        match deps.receiptFromSlice receipt with
        | none => false
        | some r => !seen.contains r.partId && verifyItems d (r.partId :: seen) items

/-- Source: `capture_binding.rs`, `verify_receipt_set` -/
def CaptureDescriptor.verifyReceiptSet (d : CaptureDescriptor) (items : List (Bytes × Bytes)) : Bool :=
  items.length = d.parts.length && d.verifyItems deps [] items

/-- A receipt and a body are those of a part: the receipt is the one that is expected, and the body is
the text whose length and digest the descriptor gives. -/
structure ItemOf (d : CaptureDescriptor) (item : Bytes × Bytes) (p : Part) : Prop where
  receipt_le : item.1.length ≤ 4096
  receipt : deps.receiptFromSlice item.1 = some (d.expectedReceipt p)
  text : (fromUtf8 item.2).isSome
  size : item.2.length = p.sizeBytes
  sha256 : deps.sha256 item.2 = p.sha256

end

theorem sizeBytes_le (hp : p ∈ d.parts.map Prod.snd) : p.sizeBytes ≤ 1048576 := by
  simp only [CaptureDescriptor.parts, List.map_cons, List.map_map, List.mem_cons, List.mem_map,
    Option.mem_toList, Function.comp_apply, exists_eq_right] at hp
  rcases hp with rfl | hp
  · exact le_trans d.note_le (by decide)
  · exact d.attachment_le p hp

/-- What is checked of one receipt: it is that of one of the parts. -/
theorem verifyReceiptBytes_iff :
    d.verifyReceiptBytes deps receipt body = true ↔
      ∃ p ∈ d.parts.map Prod.snd, ItemOf deps d (receipt, body) p := by
  unfold CaptureDescriptor.verifyReceiptBytes
  constructor
  · intro h
    split_ifs at h with hbounds
    rw [not_or, Nat.not_lt, Nat.not_lt] at hbounds
    split at h
    · cases h
    · rename_i r hr
      split at h
      · cases h
      · rename_i p hp
        have hmem := List.mem_of_find?_eq_some hp
        have hid := List.find?_some hp
        simp only [Bool.and_eq_true, decide_eq_true_eq] at h hid
        obtain ⟨⟨⟨⟨⟨⟨⟨⟨⟨⟨⟨⟨hversion, hrealm⟩, hcapture⟩, hobject⟩, hrevision⟩, hsha256⟩, hsize⟩, hmedia⟩,
          hfingerprint⟩, hgeneration⟩, hbody⟩, hdigest⟩, htext⟩ := h
        refine ⟨p, hmem, hbounds.1, ?_, htext, hbody, hdigest⟩
        rw [hr, Option.some.injEq, CaptureDescriptor.expectedReceipt, ObjectReceipt.mk.injEq]
        exact ⟨hversion, hrealm, hcapture, hid.symm, hobject, hrevision, hsha256, hsize, hmedia,
          hfingerprint, hgeneration⟩
  · rintro ⟨p, hp, hitem⟩
    have hsize : body.length ≤ 1048576 := by
      rw [hitem.size]
      exact sizeBytes_le hp
    rw [if_neg (not_or.mpr ⟨Nat.not_lt.mpr hitem.receipt_le, Nat.not_lt.mpr hsize⟩)]
    have hreceipt := hitem.receipt
    dsimp only at hreceipt
    rw [hreceipt]
    dsimp only [CaptureDescriptor.expectedReceipt]
    rw [Request.find?_partId hp]
    simp [hitem.size, hitem.sha256, hitem.text]

/-- Every receipt of a list that passes is that of a part, of another one each time. -/
theorem verifyItems_iff {seen : List Text} :
    d.verifyItems deps seen items = true ↔
      ∃ ps : List Part, List.Forall₂ (ItemOf deps d) items ps ∧ ps ⊆ d.parts.map Prod.snd ∧ ps.Nodup ∧
        ∀ p ∈ ps, p.partId.1 ∉ seen := by
  induction items generalizing seen with
  | nil => exact ⟨fun _ => ⟨[], .nil, List.nil_subset _, List.nodup_nil, nofun⟩, fun _ => rfl⟩
  | cons item items ih =>
      obtain ⟨receipt, body⟩ := item
      unfold CaptureDescriptor.verifyItems
      rw [Bool.and_eq_true, verifyReceiptBytes_iff]
      constructor
      · rintro ⟨⟨p, hp, hitem⟩, hrest⟩
        have hreceipt := hitem.receipt
        dsimp only at hreceipt
        rw [hreceipt] at hrest
        dsimp only [CaptureDescriptor.expectedReceipt] at hrest
        rw [Bool.and_eq_true, ih] at hrest
        obtain ⟨hnew, ps, hitems, hsub, hnodup, hseen⟩ := hrest
        have hnew : p.partId.1 ∉ seen := by simpa using hnew
        refine ⟨p :: ps, .cons hitem hitems, List.cons_subset.mpr ⟨hp, hsub⟩,
          List.nodup_cons.mpr ⟨fun hmem => hseen p hmem List.mem_cons_self, hnodup⟩, ?_⟩
        exact List.forall_mem_cons.mpr ⟨hnew, fun q hq h => hseen q hq (List.mem_cons_of_mem _ h)⟩
      · rintro ⟨_, hforall, hsub, hnodup, hseen⟩
        cases hforall with
        | @cons _ p _ ps hitem hitems =>
            obtain ⟨hp, hsub⟩ := List.cons_subset.mp hsub
            obtain ⟨hnotMem, hnodup⟩ := List.nodup_cons.mp hnodup
            obtain ⟨hnew, hseen⟩ := List.forall_mem_cons.mp hseen
            refine ⟨⟨p, hp, hitem⟩, ?_⟩
            have hreceipt := hitem.receipt
            dsimp only at hreceipt
            rw [hreceipt]
            dsimp only [CaptureDescriptor.expectedReceipt]
            rw [Bool.and_eq_true, ih]
            refine ⟨by simpa using hnew, ps, hitems, hsub, hnodup, fun q hq h => ?_⟩
            rcases List.mem_cons.mp h with heq | hmem
            · rw [Request.part_inj (hsub hq) hp (Subtype.ext heq)] at hq
              exact hnotMem hq
            · exact hseen q hq hmem

theorem nodup_parts (d : CaptureDescriptor) : (d.parts.map Prod.snd).Nodup :=
  List.Nodup.of_map _ (nodup_objectKeys ⟨d, none, by simp⟩)

/-- **The receipts that pass** are those of the parts, one each, in any order. -/
theorem verifyReceiptSet_iff :
    d.verifyReceiptSet deps items = true ↔
      ∃ ps : List Part, ps.Perm (d.parts.map Prod.snd) ∧ List.Forall₂ (ItemOf deps d) items ps := by
  unfold CaptureDescriptor.verifyReceiptSet
  rw [Bool.and_eq_true, decide_eq_true_eq, verifyItems_iff]
  constructor
  · rintro ⟨hlength, ps, hitems, hsub, hnodup, _⟩
    have hle : (d.parts.map Prod.snd).length ≤ ps.length := by
      rw [List.length_map, ← hlength, hitems.length_eq]
    exact ⟨ps, (List.subperm_of_subset hnodup hsub).perm_of_length_le hle, hitems⟩
  · rintro ⟨ps, hperm, hitems⟩
    refine ⟨?_, ps, hitems, hperm.subset, hperm.nodup_iff.mpr (nodup_parts d), fun _ _ => List.not_mem_nil⟩
    rw [hitems.length_eq, hperm.length_eq, List.length_map]

/-! ## Cleaned objects -/

variable {r : Request} {c : CancelledResource} {o : Outcome} {s : Cleaned}

/-- Counting each object once in a list of their number is a comparison up to order. -/
theorem names_iff : CancelledResource.Names r s ↔ s.cleanedObjects.Perm r.objectKeys := by
  constructor
  · exact perm_of_names
  · intro h
    refine ⟨h.length_eq, fun k hk => ?_⟩
    rw [h.count_eq, List.count_eq_one_of_mem (nodup_objectKeys r) hk]

/-- What an outcome has to say of a cleanup. -/
structure CleanedFor (c : CancelledResource) (r : Request) (s : Cleaned) : Prop where
  realm : s.realmId = r.realm
  intent : s.intentId = c.intentId
  cancelled : s.cancelledOwnerOutcomeId = c.ownerOutcomeId
  cancellation : s.cancellation = c.cancellation
  objects : s.cleanedObjects.Perm r.objectKeys

/-- **The cleanups that pass** are those of cancellations that fit the request. -/
theorem verifyCleaned_iff :
    c.verifyCleaned r o = .ok () ↔ c.validate r = .ok () ∧ ∃ s, o = .cleaned s ∧ CleanedFor c r s := by
  unfold CancelledResource.verifyCleaned
  cases o with
  | stored s =>
      constructor
      · intro h
        cases h
      · rintro ⟨_, s', hs', _⟩
        cases hs'
  | cleaned s =>
      rcases hvalidate : c.validate r with x | _
      · simp only [CancelledResource.objects, hvalidate]
        constructor
        · intro h
          cases h
        · rintro ⟨h, _⟩
          cases h
      · simp only [CancelledResource.objects, hvalidate]
        change (if _ then _ else _) = _ ↔ _
        constructor
        · intro h
          split_ifs at h with hbad
          simp only [not_or, ne_eq, not_not, Bool.not_eq_true, List.any_eq_false,
            decide_eq_true_eq] at hbad
          obtain ⟨hrealm, hintent, hcancelled, hcancellation, hlength, hcount⟩ := hbad
          exact ⟨trivial, s, rfl, hrealm, hintent, hcancelled, hcancellation,
            names_iff.mp ⟨hlength, hcount⟩⟩
        · rintro ⟨_, s', hs', h⟩
          cases hs'
          have hnames := names_iff.mpr h.objects
          rw [if_neg]
          simp only [not_or, ne_eq, not_not, Bool.not_eq_true, List.any_eq_false, decide_eq_true_eq]
          exact ⟨h.realm, h.intent, h.cancelled, h.cancellation, hnames.length_eq, hnames.count_eq⟩

/-- Both checks are comparisons of multisets, once the cancellation fits the request. -/
structure SetsChecked (deps : Deps) : Prop where
  receipts : ∀ (d : CaptureDescriptor) (items : List (Bytes × Bytes)),
    d.verifyReceiptSet deps items = true ↔
      ∃ ps : List Part, ps.Perm (d.parts.map Prod.snd) ∧ List.Forall₂ (ItemOf deps d) items ps
  objects : ∀ (r : Request) (c : CancelledResource) (o : Outcome),
    c.verifyCleaned r o = .ok () ↔ c.validate r = .ok () ∧ ∃ s, o = .cleaned s ∧ CleanedFor c r s

theorem setsChecked (deps : Deps) : SetsChecked deps where
  receipts := fun _ _ => verifyReceiptSet_iff
  objects := fun _ _ _ => verifyCleaned_iff

/-! ## A cancellation and a request for a part -/

section Example

/-- The cancellation of the capture of the note. -/
def noteCancelled : CancelledResource where
  kind := "cancellation".toList
  intentId := noteCapture.captureId
  terminalIntentRevision := 2
  cancellationGeneration := 1
  ownerOutcomeId := ⟨uuid 0x0 0xcc, by decide⟩
  partIds := [note.partId]
  cancellation :=
    { schemaVersion := version
      purpose := "cancel_unpublished_capture".toList
      realmId := noteCapture.realmId
      captureId := noteCapture.captureId
      requestFingerprint := noteCapture.requestFingerprint
      intentRevision := 2
      cancellationGeneration := 1 }

/-- Its cleanup. -/
def noteCleaned : Cleaned :=
  { noteStored.toOriginalEffect with
    cancelledOwnerOutcomeId := noteCancelled.ownerOutcomeId
    cancellation := noteCancelled.cancellation
    cleanedObjects := noteRequest.objectKeys }

/-- The cancellation fits the capture and the outcome fits both, but checked with the request for the
note instead of the one for the capture the cleanup is refused. -/
theorem not_verifyCleaned_note :
    noteCancelled.validate ⟨noteCapture, none, nofun⟩ = .ok () ∧
      ¬ (noteCancelled.verifyCleaned noteRequest (.cleaned noteCleaned) = .ok () ↔
        ∃ s, Outcome.cleaned noteCleaned = .cleaned s ∧ CleanedFor noteCancelled noteRequest s) := by
  refine ⟨by decide +kernel, fun h => ?_⟩
  have hok := h.mpr ⟨noteCleaned, rfl, rfl, rfl, rfl, rfl, .rfl⟩
  have hselected := CancelledResource.selected_of_validate (verifyCleaned_iff.mp hok).1
  cases hselected

end Example

end DiskArcana.Personal
