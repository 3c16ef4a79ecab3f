import DiskArcana.Personal.StoreLaw

/-!
# Writes that are refused

A write that is refused for good should leave the tables as they are, so that it can be repeated. A cleanup
does. A stage does unless the journal is full: its attempt is prepared in a transaction of its own, and the
room in the journal is looked at only in the next one (`leavesNoTrace_iff`).
-/

namespace DiskArcana.Personal

open DiskArcana.Lib DiskArcana.Lib.Transactions DiskArcana.Accounts

variable {deps : Deps} {t : Tables} {e : NativeCommitContext} {r : Request} {bytes : Bytes}

inductive Write
  | stage (e : NativeCommitContext) (r : Request) (bytes : Bytes)
  | cleanup (e : NativeCommitContext) (r : Request) (objects : List ObjectKey) (c : CancelledResource)

def Write.call (deps : Deps) : Write → Sql Tables Refusal (Option Outcome)
  | .stage e r bytes => stageContext deps e r bytes
  | .cleanup e r objects c => cleanupContext deps e r objects c

/-- Refusals that say that nothing has been written. -/
def Refusal.Definite (x : Refusal) : Prop := x = .conflict ∨ x = .backpressure ∨ x = .notAvailable

/-- A write that is refused for good leaves the tables as they were. -/
def LeavesNoTrace (deps : Deps) (w : Write) (s : Session Tables) : Prop :=
  ∀ x, Refusal.Definite x → (w.call deps s).1 = .error x → (w.call deps s).2.durable = s.durable

/-- A stage that passes every check on its resource, while the journal has no room. -/
structure Overfull (deps : Deps) (e : NativeCommitContext) (r : Request) (bytes : Bytes) (t : Tables) :
    Prop where
  checks : stageChecks deps e r bytes = .ok ()
  fenced : e.disposition = .fencedNoCommit
  capture_open : ∀ c, t.captures.lookup r.captureId = some c → c = ⟨r.descriptorIdentity, none⟩
  attempt : t.attempts.lookup r.resourceIdentity = none
  lease : ∀ row ∈ t.attempts.entries, row.2.lease ≠ e.lease.1
  object : t.objects.lookup r.resourceIdentity = none
  unjournaled : t.journalOf r.resourceIdentity = []
  full : maxJournal ≤ t.ownerJournal.length

def Write.IsOverfull (deps : Deps) (t : Tables) : Write → Prop
  | .stage e r bytes => Overfull deps e r bytes t
  | .cleanup _ _ _ _ => False

/-! ## Fault-free transactions -/

/-- What the journal says decides whether an open capture gets a new object. -/
theorem commit_of_open {receipt : Text} (hopen : requireOpen r t = .ok ())
    (hobject : t.objects.lookup r.resourceIdentity = none) :
    commit e r receipt bytes t =
      journal e r
        { t with
          objects := t.objects.insert r.resourceIdentity
            ⟨r.captureId, receipt, some bytes, e.proposal.registrationJson⟩ } >>=
      fun t => .ok (commitAttempt e r t) := by
  unfold commit insertObject
  rw [hopen, hobject]
  rfl

theorem settle_error {body : Tables → Except (Stop Refusal) Tables} {x : Refusal} {s : Session Tables}
    (h : settle e body ⟨t, false, []⟩ = (.error x, s)) :
    body t = .error (.refused x) ∧ s = ⟨t, false, []⟩ := by
  unfold settle at h
  rw [bind_apply] at h
  rcases hbody : body t with (_ | y) | t'
  · rw [attempt, transaction_of_violation hbody] at h
    cases h
  · rw [attempt, transaction_of_refused hbody] at h
    cases y <;> cases h <;> exact ⟨rfl, rfl⟩
  · rw [attempt, transaction_of_ok hbody] at h
    cases h

theorem settle_of_refused {body : Tables → Except (Stop Refusal) Tables}
    (h : body t = .error (.refused .backpressure)) :
    settle e body ⟨t, false, []⟩ = (.error .backpressure, ⟨t, false, []⟩) := by
  unfold settle
  rw [bind_apply, attempt, transaction_of_refused h]
  rfl

theorem capture_of_open (h : ∀ c, t.captures.lookup r.captureId = some c → c = ⟨r.descriptorIdentity, none⟩) :
    (insertCapture r none t).captures.lookup r.captureId = some ⟨r.descriptorIdentity, none⟩ := by
  rcases hc : t.captures.lookup r.captureId with _ | c
  · simp only [insertCapture, hc, Table.lookup_insert_eq_ite, if_true]
  · rw [lookup_insertCapture hc, h c hc]

theorem requireOpen_of_lookup (h : t.captures.lookup r.captureId = some ⟨r.descriptorIdentity, none⟩) :
    requireOpen r t = .ok () := by
  simp [requireOpen, capture, h]

/-! ## Stages over a full journal -/

namespace Overfull

theorem observe_eq (h : Overfull deps e r bytes t) : observe deps e r t = .ok .unseen := by
  have hcapture : capture r t = .ok none ∨ capture r t = .ok (some none) := by
    unfold capture
    rcases hc : t.captures.lookup r.captureId with _ | c
    · exact Or.inl rfl
    · rw [h.capture_open c hc]
      exact Or.inr (if_pos rfl)
  have hattempt : observeAttempt deps e r t = .ok .unseen := by
    simp [observeAttempt, h.attempt, h.object, h.unjournaled, h.fenced]
  unfold observe
  rcases hcapture with hcapture | hcapture <;> rw [hcapture] <;> exact hattempt

theorem prepare_eq (h : Overfull deps e r bytes t) : prepare e r t = .ok (prepared e r t) := by
  have hopen := requireOpen_of_lookup (capture_of_open h.capture_open)
  have hfree : ¬ ((t.attempts.lookup r.resourceIdentity).isSome ∨
      ∃ row ∈ t.attempts.entries, row.2.lease = e.lease.1) := by
    rintro (hsome | ⟨row, hrow, hlease⟩)
    · rw [h.attempt] at hsome
      cases hsome
    · exact h.lease row hrow hlease
  unfold prepare
  simp only [hopen, insertAttempt, insertCapture_attempts]
  change (if _ then _ else _) = _
  rw [if_neg hfree]
  simp [prepared]

theorem commit_eq (h : Overfull deps e r bytes t) (receipt : Text) :
    commit e r receipt bytes (prepared e r t) = .error (.refused .backpressure) := by
  have hopen : requireOpen r (prepared e r t) = .ok () :=
    requireOpen_of_lookup (capture_of_open h.capture_open)
  rw [commit_of_open hopen h.object, journal, if_pos]
  · rfl
  · exact h.full

/-- Its attempt stays prepared. -/
theorem stageContext_eq (h : Overfull deps e r bytes t) :
    stageContext deps e r bytes ⟨t, false, []⟩ = (.error .backpressure, ⟨prepared e r t, false, []⟩) := by
  have hreceipt : ∃ receipt, r.selectedReceiptJson = .ok receipt := by
    have hchecks := h.checks
    unfold stageChecks at hchecks
    obtain ⟨_, -, hchecks⟩ := bind_eq_ok.mp hchecks
    obtain ⟨_, hbody, -⟩ := bind_eq_ok.mp hchecks
    unfold Request.verifyBody at hbody
    obtain ⟨expected, hselected, -⟩ := bind_eq_ok.mp hbody
    exact ⟨expected.toJson, by rw [Request.selectedReceiptJson, hselected]; rfl⟩
  obtain ⟨receipt, hreceipt⟩ := hreceipt
  unfold stageContext
  rw [bind_of_ok (show check _ _ = _ from by rw [check_apply, h.checks]),
    bind_of_ok (show reading _ _ = _ from by rw [reading_sound, h.observe_eq])]
  dsimp only
  unfold stageUnseen
  rw [bind_of_ok (transaction_of_ok h.prepare_eq),
    bind_of_ok (show check _ _ = _ from by rw [check_apply, hreceipt])]
  exact settle_of_refused (h.commit_eq receipt)

theorem prepared_ne (h : Overfull deps e r bytes t) : prepared e r t ≠ t := by
  intro heq
  have hlookup := h.attempt
  rw [← heq, prepared, Table.lookup_insert_eq_ite, if_pos rfl] at hlookup
  cases hlookup

end Overfull

/-! ## The law -/

theorem of_insertCapture_open (h : requireOpen r (insertCapture r none t) = .ok ()) :
    ∀ c, t.captures.lookup r.captureId = some c → c = ⟨r.descriptorIdentity, none⟩ := by
  intro c hc
  have hopen := requireOpen_eq_ok h
  rw [lookup_insertCapture hc] at hopen
  exact Option.some.inj hopen

/-- An attempt that could be prepared and whose object is refused has found the journal full. -/
theorem overfull_of_refused {receipt : Text} {t' : Tables} {x : Refusal}
    (hchecks : stageChecks deps e r bytes = .ok ()) (hobserve : observe deps e r t = .ok .unseen)
    (hprepare : prepare e r t = .ok t') (hcommit : commit e r receipt bytes t' = .error (.refused x)) :
    Overfull deps e r bytes t := by
  obtain ⟨hattempt, hobject, hjournal, hfenced⟩ := of_observe_unseen hobserve
  obtain ⟨-, rfl⟩ := prepare_eq_ok hprepare
  unfold prepare at hprepare
  obtain ⟨_, hopen, hinsert⟩ := bind_eq_ok.mp hprepare
  have hcapture := of_insertCapture_open hopen
  refine ⟨hchecks, hfenced, hcapture, hattempt, ?_, hobject, hjournal, ?_⟩
  · intro row hrow hlease
    unfold insertAttempt at hinsert
    rw [if_pos] at hinsert
    · cases hinsert
    · exact Or.inr ⟨row, by simpa using hrow, hlease⟩
  · by_contra hroom
    have hopen' : requireOpen r (prepared e r t) = .ok () :=
      requireOpen_of_lookup (capture_of_open hcapture)
    rw [commit_of_open hopen' hobject, Personal.journal, if_neg] at hcommit
    · split_ifs at hcommit <;> cases hcommit
    · exact hroom

theorem stageUnseen_error {x : Refusal} {s : Session Tables}
    (hchecks : stageChecks deps e r bytes = .ok ()) (hobserve : observe deps e r t = .ok .unseen)
    (hfull : ¬ Overfull deps e r bytes t) (h : stageUnseen e r bytes ⟨t, false, []⟩ = (.error x, s)) :
    s.durable = t := by
  unfold stageUnseen at h
  rcases hprepare : prepare e r t with (_ | y) | t'
  · rw [bind_of_error (transaction_of_violation hprepare)] at h
    cases h
    rfl
  · rw [bind_of_error (transaction_of_refused hprepare)] at h
    cases h
    rfl
  · rw [bind_of_ok (transaction_of_ok hprepare)] at h
    rcases hreceipt : r.selectedReceiptJson with y | receipt
    · exfalso
      unfold stageChecks at hchecks
      obtain ⟨_, -, hchecks⟩ := bind_eq_ok.mp hchecks
      obtain ⟨_, hbody, -⟩ := bind_eq_ok.mp hchecks
      unfold Request.verifyBody at hbody
      obtain ⟨expected, hselected, -⟩ := bind_eq_ok.mp hbody
      rw [Request.selectedReceiptJson, hselected] at hreceipt
      cases hreceipt
    · rw [bind_of_ok (show check _ _ = _ from by rw [check_apply, hreceipt])] at h
      obtain ⟨hcommit, -⟩ := settle_error h
      exact absurd (overfull_of_refused hchecks hobserve hprepare hcommit) hfull

theorem stageContext_error {x : Refusal} {s : Session Tables} (hfull : ¬ Overfull deps e r bytes t)
    (h : stageContext deps e r bytes ⟨t, false, []⟩ = (.error x, s)) : s.durable = t := by
  unfold stageContext at h
  rcases hchecks : stageChecks deps e r bytes with y | _
  · rw [bind_of_error (show check _ _ = _ from by rw [check_apply, hchecks])] at h
    cases h
    rfl
  · rw [bind_of_ok (show check _ _ = _ from by rw [check_apply, hchecks])] at h
    rcases hobserve : observe deps e r t with y | o
    · rw [bind_of_error (show reading _ _ = _ from by rw [reading_sound, hobserve])] at h
      cases h
      rfl
    · rw [bind_of_ok (show reading _ _ = _ from by rw [reading_sound, hobserve])] at h
      cases o with dsimp only at h
      | unseen => exact stageUnseen_error hchecks hobserve hfull h
      | durable u outcome =>
          rcases hsize : r.selectedSize with y | size
          · rw [bind_of_error (show check _ _ = _ from by rw [check_apply, hsize])] at h
            cases h
            rfl
          · rw [bind_of_ok (show check _ _ = _ from by rw [check_apply, hsize])] at h
            have htriple : Triple (fun t' => t' = t) (readContext deps e r size)
                (fun v t' => t' = t ∧ readExact deps e r size t' = .ok v) (fun t' => t' = t) :=
              triple_readContext fun _ h => h
            have hread := htriple ⟨t, false, []⟩ rfl
            rw [bind_apply] at h
            rcases hresult : readContext deps e r size ⟨t, false, []⟩ with ⟨y | b, s'⟩
            · rw [hresult] at h hread
              cases h
              exact hread.1
            · rw [hresult] at h
              cases h
      | prepared => cases h; rfl
      | unknown => cases h; rfl
      | cleanupPending => cases h; rfl
      | cancelledCleaned outcome => cases h; rfl
      | corrupt => cases h; rfl

theorem cleanupContext_error {keys : List ObjectKey} {c : CancelledResource} {x : Refusal}
    {s : Session Tables} (h : cleanupContext deps e r keys c ⟨t, false, []⟩ = (.error x, s)) :
    s.durable = t := by
  unfold cleanupContext at h
  rcases hchecks : cancelChecks e r keys c with y | _
  · rw [bind_of_error (show check _ _ = _ from by rw [check_apply, hchecks])] at h
    cases h
    rfl
  · rw [bind_of_ok (show check _ _ = _ from by rw [check_apply, hchecks])] at h
    rcases hbefore : cleanedBefore deps e r c t with y | o
    · rw [bind_of_error (show reading _ _ = _ from by rw [reading_sound, hbefore])] at h
      cases h
      rfl
    · rw [bind_of_ok (show reading _ _ = _ from by rw [reading_sound, hbefore])] at h
      cases o with
      | some outcome => cases h
      | none =>
          rw [(settle_error h).2]

theorem call_uncertain {w : Write} {x : Refusal} {s : Session Tables}
    (h : w.call deps ⟨t, true, []⟩ = (.error x, s)) : s.durable = t := by
  cases w with
  | stage e r bytes =>
      change stageContext deps e r bytes _ = _ at h
      unfold stageContext at h
      rcases hchecks : stageChecks deps e r bytes with y | _
      · rw [bind_of_error (show check _ _ = _ from by rw [check_apply, hchecks])] at h
        cases h
        rfl
      · rw [bind_of_ok (show check _ _ = _ from by rw [check_apply, hchecks]),
          bind_of_error (reading_uncertain _ _ _)] at h
        cases h
        rfl
  | cleanup e r keys c =>
      change cleanupContext deps e r keys c _ = _ at h
      unfold cleanupContext at h
      rcases hchecks : cancelChecks e r keys c with y | _
      · rw [bind_of_error (show check _ _ = _ from by rw [check_apply, hchecks])] at h
        cases h
        rfl
      · rw [bind_of_ok (show check _ _ = _ from by rw [check_apply, hchecks]),
          bind_of_error (reading_uncertain _ _ _)] at h
        cases h
        rfl

/-- **A refused write leaves no trace exactly when it is no stage over a full journal.** -/
theorem leavesNoTrace_iff (deps : Deps) (t : Tables) (uncertain : Bool) (w : Write) :
    LeavesNoTrace deps w ⟨t, uncertain, []⟩ ↔ ¬ (uncertain = false ∧ w.IsOverfull deps t) := by
  constructor
  · rintro h ⟨rfl, hfull⟩
    cases w with
    | cleanup => exact hfull
    | stage e r bytes =>
        have hstage := Overfull.stageContext_eq hfull
        have htrace := h .backpressure (Or.inr (Or.inl rfl))
        rw [Write.call, hstage] at htrace
        exact hfull.prepared_ne (htrace rfl)
  · intro hfull x _ hx
    have hcall : w.call deps ⟨t, uncertain, []⟩ = (.error x, (w.call deps ⟨t, uncertain, []⟩).2) :=
      Prod.ext hx rfl
    cases uncertain with
    | true => exact call_uncertain hcall
    | false =>
        cases w with
        | stage e r bytes => exact stageContext_error (fun h => hfull ⟨rfl, h⟩) hcall
        | cleanup e r keys c => exact cleanupContext_error hcall

/-! ## A stage over a full journal -/

section Example

def hexDigits (k n : ℕ) : Text := (List.range k).map fun i => Text.hexDigit (n / 16 ^ (k - 1 - i) % 16)

/-- The identifier `aaaaaaaa-0000-4000-8000-bbbbbbbbbbbb`. -/
def uuid (a b : ℕ) : Text :=
  hexDigits 8 a ++ '-' :: hexDigits 4 0 ++ '-' :: hexDigits 4 0x4000 ++ '-' :: hexDigits 4 0x8000 ++
    '-' :: hexDigits 12 b

def note : Part where
  partId := ⟨uuid 0xb 0x1, by decide⟩
  objectId := ⟨uuid 0x50000000 0x1, by decide⟩
  objectRevision := ⟨uuid 0x60000000 0x1, by decide⟩
  sha256 := ⟨hexDigits 64 0xba7816bf8f01cfea414140de5dae2223b00361a396177a9cb410ff61f20015ad, by decide⟩
  sizeBytes := 3

/-- A capture of the note `abc`. -/
def noteCapture : CaptureDescriptor where
  realmId := ⟨uuid 0x10000000 0x1, by decide⟩
  captureId := ⟨uuid 0x7 0x1, by decide⟩
  conversationId := ⟨uuid 0x8 0x1, by decide⟩
  messageId := ⟨uuid 0x9 0x1, by decide⟩
  expectedConversationRevision := 0
  idempotencyKey := ⟨uuid 0xa 0x1, by decide⟩
  requestFingerprint :=
    ⟨hexDigits 64 0x4120ada604ff9efc888303aefb88997922b584a493d57dd3c692d49d2fe2c981, by decide⟩
  cancellationGeneration := 0
  note := note
  attachment := none
  revision_le := by decide
  generation_le := by decide
  note_le := by decide
  attachment_le := by simp
  distinct := by simp

def noteRequest : Request := ⟨noteCapture, some note, by simp [CaptureDescriptor.parts, noteCapture]⟩

def noteStored : Stored where
  ownerReceiptId := ⟨uuid 0x0 0xdd, by decide⟩
  realmId := noteCapture.realmId
  deploymentGeneration := 1
  participantId := ⟨uuid 0x0 0x6e, by decide⟩
  processGeneration := 1
  operationId := ⟨uuid 0x0 0xc9, by decide⟩
  intentId := noteCapture.captureId
  ownerCommitId := ⟨uuid 0x0 0x4c5, by decide⟩
  localSeq := 1
  resourceBindingDigest :=
    ⟨hexDigits 64 0x6949b0d11e34e34a5360abafe6f817d44f0c3d3d55a028b9ee3e5511f34d9bcb, by decide⟩
  objectReceipt := noteCapture.expectedReceipt note
  storageReceiptId := ⟨uuid 0x0 0xdc, by decide⟩

def noteContext : NativeCommitContext where
  lease := ⟨uuid 0x0 0x91, by decide⟩
  proposal := .stored noteStored
  original := noteStored.toOriginalEffect
  resource := noteRequest.resourceIdentity
  descriptor := noteRequest.descriptorIdentity
  disposition := .fencedNoCommit

def noteBody : Bytes := utf8 "abc".toList

/-- What is read and computed in calls about the note. -/
def noteDeps : Deps where
  outcomeFromSlice bytes :=
    if bytes = utf8 (Outcome.registrationJson (.stored noteStored)) then some (.stored noteStored) else none
  receiptFromSlice bytes :=
    if bytes = utf8 (noteCapture.expectedReceipt note).toJson then some (noteCapture.expectedReceipt note)
    else none
  cancelledFromSlice _ := none
  sha256 bytes := if bytes = noteBody then note.sha256 else []

/-- A journal of 128 outcomes of another resource. -/
def fullTables : Tables where
  captures := ∅
  attempts := ∅
  objects := ∅
  ownerJournal := (List.range 128).map fun n =>
    ⟨Json.nat n, Json.nat n, Json.nat n, "archived".toList, []⟩

theorem archived_ne : "archived".toList ≠ noteRequest.resourceIdentity := by
  unfold Request.resourceIdentity Request.resourceText Json.array
  intro h
  cases (List.cons.inj h).1

theorem overfull_note : Overfull noteDeps noteContext noteRequest noteBody fullTables where
  checks := by decide +kernel
  fenced := rfl
  capture_open := by
    intro c hc
    rw [fullTables, AList.lookup_empty] at hc
    cases hc
  attempt := AList.lookup_empty _
  lease := by
    intro row hrow
    cases hrow
  object := AList.lookup_empty _
  unjournaled := by
    apply List.filter_eq_nil_iff.mpr
    intro row hrow
    obtain ⟨n, -, rfl⟩ := List.mem_map.mp hrow
    rw [decide_eq_true_eq]
    exact archived_ne
  full := by
    rw [fullTables, List.length_map, List.length_range]
    exact le_refl 128

/-- Staging the note over a full journal is refused, and its attempt stays behind. -/
theorem not_leavesNoTrace :
    ¬ ∀ (deps : Deps) (t : Tables) (w : Write), LeavesNoTrace deps w ⟨t, false, []⟩ := by
  intro h
  have hstage := h noteDeps fullTables (.stage noteContext noteRequest noteBody) .backpressure
    (Or.inr (Or.inl rfl))
  rw [Write.call, overfull_note.stageContext_eq] at hstage
  exact overfull_note.prepared_ne (hstage rfl)

end Example

end DiskArcana.Personal
