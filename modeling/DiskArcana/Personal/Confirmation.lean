import Mathlib.Data.List.Perm.Subperm
import DiskArcana.Personal.Parent
import DiskArcana.Personal.Refused

/-!
# Confirmed writes and cleanups

Whatever the control plane answers and whatever fails: when the parent confirms a write, the body that is
stored is the one of the descriptor, and the journal, the control plane and the parent have the same outcome
(`Confirmed`); when it confirms a cleanup, no part has a body, and the outcome names the parts
(`Removed`). Where the lease does not fit the request, and where the observation decides nothing, no table
is changed (`Untouched`).
-/

namespace DiskArcana.Personal

open DiskArcana.Lib DiskArcana.Lib.Transactions DiskArcana.Accounts

variable {σ α : Type} {deps : Deps} {control : Control σ} {d : DeploymentBinding}
  {refs : ProtectedConfigReferences} {r : Request} {t : Tables} {e : NativeCommitContext}

/-- The control plane knows the deployment, and hands out this lease. -/
def Gives (control : Control σ) (d : DeploymentBinding) (refs : ProtectedConfigReferences) (r : Request)
    (op : Operation) (e : NativeCommitContext) (binding : LeaseBinding) : Prop :=
  ∃ lease, control.withStartup d refs = .ok (lease, d) ∧ control.withEffect lease r op = .ok (e, binding)

/-- What a confirmed write stands for. -/
structure Confirmed (deps : Deps) (control : Control σ) (e : NativeCommitContext) (r : Request) (t : Tables)
    (o : Outcome) : Prop where
  /-- The stored body is the one of the selected part. -/
  body : ∃ p row bytes, r.selected = some p ∧ t.objects.lookup r.resourceIdentity = some row ∧
    row.body = some bytes ∧ bytes.length = p.sizeBytes ∧ deps.sha256 bytes = p.sha256.1 ∧
    (fromUtf8 bytes).isSome
  /-- The journal holds the outcome, and nothing else for the resource. -/
  journaled : ∃ j, t.journalOf r.resourceIdentity = [j] ∧ Outcome.parse deps (utf8 j.outcome) = .ok o
  bound : ∃ b, control.durableBinding e r o = .ok b ∧ o.originalIdentity = b.originalEffect ∧
    o.storageReceiptId.map Subtype.val = some b.storageReceiptId
  registered : control.registerOriginalOutcome e r o = .ok ()

/-- What a confirmed cleanup stands for. -/
structure Removed (r : Request) (t : Tables) (o : Outcome) : Prop where
  absent : ∀ R ∈ r.partResourceIdentities, ∀ row, t.objects.lookup R = some row → row.body = none
  named : ∃ s, o = .cleaned s ∧ s.cleanedObjects.Perm r.objectKeys

/-- The observation leaves open what has happened before. -/
def Undecided (deps : Deps) (e : NativeCommitContext) (r : Request) (t : Tables) : Prop :=
  observe deps e r t = .ok .prepared ∨ observe deps e r t = .ok .unknown ∨
    observe deps e r t = .ok .corrupt

/-- When the tables `t` must still be there after an operation. -/
structure Untouched (deps : Deps) (control : Control σ) (d : DeploymentBinding)
    (refs : ProtectedConfigReferences) (r : Request) (op : Operation) (t t' : Tables) : Prop where
  unbound : (∀ e binding, Gives control d refs r op e binding → ¬ binding.Fits d r op) → t' = t
  undecided : ∀ e binding, Gives control d refs r op e binding → Undecided deps e r t → t' = t

/-! ## Rules for the layers -/

theorem require_eq_ok {b : Bool} {x : Refusal} : require b x = .ok () ↔ b = true := by
  cases b <;> simp [require]

section Rules

variable {P A : Tables → Prop} {Q : α → Tables → Prop} {op : Operation}
  {action : Effect → Sql Tables Refusal α}

/-- An action runs only under a lease that fits the request. -/
theorem triple_authorized (hA : ∀ t, P t → A t)
    (h : ∀ e binding, Gives control d refs r op e binding → binding.Fits d r op →
      Triple P (action ⟨e, op, binding.descriptorIdentity, binding.resourceIdentity⟩)
        (fun a t => Q a t ∧ A t) A) :
    Triple P (Parent.authorized control d refs r op action) Q A := by
  have hrelease (after : Option Refusal) (a : α) :
      Triple (fun t => Q a t ∧ A t) (check (release after a)) (fun a t => Q a t ∧ A t) A := by
    refine .check (fun _ h => h.2) ?_
    intro t v ht hv
    cases after with
    | some x => cases hv
    | none =>
        cases hv
        exact ht
  unfold Parent.authorized withStartup
  refine .bind (Q := fun _ => P) (.check hA fun _ _ h _ => h) fun _ => ?_
  refine .bind (Q := fun v t => P t ∧ control.withStartup d refs = .ok v)
    (.check hA fun _ _ h hv => ⟨h, hv⟩) ?_
  rintro ⟨lease, observed⟩
  refine .bind (Q := fun _ t => P t ∧ control.withStartup d refs = .ok (lease, d) ∧ observed = d)
    (.check (fun _ h => hA _ h.1) ?_) fun _ => ?_
  · rintro t _ ⟨ht, hstartup⟩ hobserved
    have heq : observed = d := of_decide_eq_true (require_eq_ok.mp hobserved)
    exact ⟨ht, by rw [hstartup, heq], heq⟩
  refine .bind (Q := fun a t => Q a t ∧ A t) ?_ fun a => (hrelease _ a).mono (fun _ h => h) fun _ _ h => h.1
  unfold withEffect
  refine .bind (Q := fun _ t => P t ∧ control.withStartup d refs = .ok (lease, d) ∧ observed = d)
    (.check (fun _ h => hA _ h.1) fun _ _ h _ => h) fun _ => ?_
  refine .bind (Q := fun v t => P t ∧ Gives control d refs r op v.1 v.2 ∧ observed = d)
    (.check (fun _ h => hA _ h.1) fun _ v h hv => ⟨h.1, ⟨lease, h.2.1, hv⟩, h.2.2⟩) ?_
  rintro ⟨e, binding⟩
  refine .bind
    (Q := fun _ t => P t ∧ Gives control d refs r op e binding ∧ binding.Fits d r op)
    (.check (fun _ h => hA _ h.1) ?_) fun _ => ?_
  · rintro t _ ⟨ht, hgives, rfl⟩ hfits
    exact ⟨ht, hgives, of_decide_eq_true (require_eq_ok.mp hfits)⟩
  refine .bind (Q := fun a t => Q a t ∧ A t) ?_ fun a => hrelease _ a
  intro s hs
  exact h e binding hs.2.1 hs.2.2 s hs.1

theorem triple_observe {e : Effect} (hA : ∀ t, P t → A t) :
    Triple P (NativeStorage.observe deps e r)
      (fun o t => P t ∧ ∃ o', observe deps e.lease r t = .ok o' ∧ project r o' = .ok o) A := by
  unfold NativeStorage.observe observeContext
  refine .bind (Q := fun o' t => P t ∧ observe deps e.lease r t = .ok o') ?_ fun o' => ?_
  · exact .bind (Q := fun _ => P) (.check hA fun _ _ h _ => h) fun _ =>
      .reading hA fun _ _ h ho => ⟨h, ho⟩
  · exact .check (fun _ h => hA _ h.1) fun _ _ h ho => ⟨h.1, o', h.2, ho⟩

end Rules

/-! ## What the checks say -/

theorem of_verifyDurable {e : Effect} {receipt : ObjectReceipt} {o : Outcome}
    (h : e.verifyDurable control r receipt o = .ok ()) :
    ∃ b, control.durableBinding e.lease r o = .ok b ∧ o.originalIdentity = b.originalEffect ∧
      o.storageReceiptId.map Subtype.val = some b.storageReceiptId := by
  unfold Effect.verifyDurable at h
  obtain ⟨_, -, h⟩ := bind_eq_ok.mp h
  obtain ⟨_, -, h⟩ := bind_eq_ok.mp h
  obtain ⟨_, -, h⟩ := bind_eq_ok.mp h
  obtain ⟨_, -, h⟩ := bind_eq_ok.mp h
  obtain ⟨b, hb, h⟩ := bind_eq_ok.mp h
  have hboth := require_eq_ok.mp h
  rw [Bool.and_eq_true, decide_eq_true_eq] at hboth
  exact ⟨b, hb, of_decide_eq_true hboth.1, hboth.2⟩

theorem of_registerOutcome {e : Effect} {o : Outcome} (h : e.registerOutcome control r o = .ok ()) :
    control.registerOriginalOutcome e.lease r o = .ok () := by
  unfold Effect.registerOutcome at h
  obtain ⟨_, -, h⟩ := bind_eq_ok.mp h
  obtain ⟨_, -, h⟩ := bind_eq_ok.mp h
  exact h

/-- What has been read back is the body of the object, and agrees with the receipt of the request. -/
theorem of_readExact {max : ℕ} {bytes : Bytes} (h : readExact deps e r max t = .ok bytes) :
    (∃ u x, observe deps e r t = .ok (.durable u x)) ∧ r.verifyBody deps bytes = .ok () ∧
      ∃ row, t.objects.lookup r.resourceIdentity = some row ∧ row.body = some bytes := by
  unfold readExact at h
  obtain ⟨o, ho, h⟩ := bind_eq_ok.mp h
  cases o with
  | durable u x =>
      refine ⟨⟨u, x, ho⟩, ?_⟩
      dsimp only at h
      unfold readBody at h
      obtain ⟨_, -, h⟩ := bind_eq_ok.mp h
      obtain ⟨_, -, h⟩ := bind_eq_ok.mp h
      obtain ⟨_, -, h⟩ := bind_eq_ok.mp h
      obtain ⟨_, -, h⟩ := bind_eq_ok.mp h
      obtain ⟨_, -, h⟩ := bind_eq_ok.mp h
      split at h
      case h_2 => cases h
      case h_1 hrow _ =>
        split_ifs at h
        obtain ⟨_, -, h⟩ := bind_eq_ok.mp h
        obtain ⟨_, -, h⟩ := bind_eq_ok.mp h
        obtain ⟨_, hverify, h⟩ := bind_eq_ok.mp h
        cases h
        exact ⟨hverify, _, hrow, rfl⟩
  | unseen => cases h
  | prepared => cases h
  | unknown => cases h
  | corrupt => cases h
  | cleanupPending => cases h
  | cancelledCleaned x => cases h

/-! ## Writes -/

/-- The body of an object whose receipt is read as it was written is the one of the selected part. -/
theorem body_of_verifyBody {bytes : Bytes}
    (hreceipt : ∀ p, r.selected = some p →
      deps.receiptFromSlice (utf8 (r.descriptor.expectedReceipt p).toJson) =
        some (r.descriptor.expectedReceipt p))
    (h : r.verifyBody deps bytes = .ok ()) :
    ∃ p, r.selected = some p ∧ bytes.length = p.sizeBytes ∧ deps.sha256 bytes = p.sha256.1 ∧
      (fromUtf8 bytes).isSome := by
  have hverify := h
  unfold Request.verifyBody at hverify
  obtain ⟨expected, hselected, -⟩ := bind_eq_ok.mp hverify
  unfold Request.selectedReceipt at hselected
  rcases hp : r.selected with _ | p
  · rw [hp] at hselected
    cases hselected
  · have hjson : r.selectedReceiptJson = .ok (r.descriptor.expectedReceipt p).toJson := by
      rw [Request.selectedReceiptJson, Request.selectedReceipt, hp]
      rfl
    obtain ⟨rec, hrec, hlen, hsha, hutf⟩ := agrees_of_verifyBody hjson h
    rw [hreceipt p hp] at hrec
    cases hrec
    exact ⟨p, rfl, hlen, hsha, hutf⟩

theorem triple_confirmed {P A : Tables → Prop} {e : Effect} {receipt : ObjectReceipt} {x : Outcome}
    (hA : ∀ t, P t → A t) :
    Triple P (Parent.confirmed deps control r e receipt x)
      (fun o t => o = x ∧ P t ∧ e.verifyDurable control r receipt x = .ok () ∧
        e.registerOutcome control r x = .ok () ∧
        ∃ bytes, readExact deps e.lease r receipt.sizeBytes t = .ok bytes) A := by
  unfold Parent.confirmed NativeStorage.verifyExactReadback
  refine .bind (Q := fun _ t => P t ∧ e.verifyDurable control r receipt x = .ok ())
    (.check hA fun _ _ h hv => ⟨h, hv⟩) fun _ => ?_
  refine .bind (Q := fun _ t => (P t ∧ e.verifyDurable control r receipt x = .ok ()) ∧
    ∃ bytes, readExact deps e.lease r receipt.sizeBytes t = .ok bytes) ?_ fun _ => ?_
  · refine .bind (.check (fun _ h => hA _ h.1) fun _ _ h _ => h) fun _ => ?_
    refine .bind (.check (fun _ h => hA _ h.1) fun _ _ h _ => h) fun _ => ?_
    refine .bind (triple_readContext fun _ h => hA _ h.1) fun bytes => ?_
    exact .check (fun _ h => hA _ h.1.1) fun _ _ h _ => ⟨h.1, bytes, h.2⟩
  · refine .bind (Q := fun _ t => ((P t ∧ e.verifyDurable control r receipt x = .ok ()) ∧
      ∃ bytes, readExact deps e.lease r receipt.sizeBytes t = .ok bytes) ∧
      e.registerOutcome control r x = .ok ())
      (.check (fun _ h => hA _ h.1.1) fun _ _ h hv => ⟨h, hv⟩) fun _ => ?_
    refine .pure (fun _ h => hA _ h.1.1.1) ?_
    rintro t ⟨⟨⟨ht, hdurable⟩, hread⟩, hregister⟩
    exact ⟨rfl, ht, hdurable, hregister, hread⟩

/-- From what the layers have checked on the way to a confirmation. -/
theorem confirmed_of_checks {e : Effect} {receipt : ObjectReceipt} {o : Outcome}
    (hreceipt : ∀ p, r.selected = some p →
      deps.receiptFromSlice (utf8 (r.descriptor.expectedReceipt p).toJson) =
        some (r.descriptor.expectedReceipt p))
    (hparse : ∀ u x, observe deps e.lease r t = .ok (.durable u x) → x = o)
    (hdurable : e.verifyDurable control r receipt o = .ok ())
    (hregister : e.registerOutcome control r o = .ok ())
    (hread : ∃ bytes, readExact deps e.lease r receipt.sizeBytes t = .ok bytes) :
    Confirmed deps control e.lease r t o := by
  obtain ⟨bytes, hread⟩ := hread
  obtain ⟨⟨u, x, hobserve⟩, hverify, row, hrow, hbody⟩ := of_readExact hread
  obtain ⟨p, hp, hlen, hsha, hutf⟩ := body_of_verifyBody hreceipt hverify
  obtain ⟨row', j, -, hj, hout, hx⟩ := of_observe_durable hobserve
  refine ⟨⟨p, row, bytes, hp, hrow, hbody, hlen, hsha, hutf⟩, ⟨j, hj, ?_⟩, of_verifyDurable hdurable,
    of_registerOutcome hregister⟩
  rw [hout, hx, hparse u x hobserve]

/-- An observation without its receipt. -/
def Observation.erase {R O : Type} : Observation R O → Observation Unit O
  | .durable _ x => .durable () x
  | .cancelledCleaned x => .cancelledCleaned x
  | .unseen => .unseen
  | .prepared => .prepared
  | .unknown => .unknown
  | .corrupt => .corrupt
  | .cleanupPending => .cleanupPending

/-- The storage observes what the backend does. -/
theorem project_eq_ok {o' : Observation Unit Outcome} {o : Observation ObjectReceipt Outcome}
    (h : project r o' = .ok o) : o' = o.erase := by
  unfold project at h
  split at h
  case h_1 =>
    obtain ⟨receipt, -, h⟩ := bind_eq_ok.mp h
    cases h
    rfl
  all_goals
    cases h
    try rfl

/-- A write that is confirmed is confirmed of the tables it leaves. -/
theorem triple_reconcile {body : Except Refusal Bytes} {e : Effect} {o : Observation ObjectReceipt Outcome}
    (hreceipt : ∀ p, r.selected = some p →
      deps.receiptFromSlice (utf8 (r.descriptor.expectedReceipt p).toJson) =
        some (r.descriptor.expectedReceipt p))
    (hproposal : deps.outcomeFromSlice (utf8 e.lease.proposal.registrationJson) = some e.lease.proposal) :
    Triple (fun t' => t' = t ∧ observe deps e.lease r t = .ok o.erase)
      (Parent.reconcile deps control r body e o)
      (fun x t' => Confirmed deps control e.lease r t' x) (fun _ => True) := by
  cases o with
  | durable receipt x =>
      refine .bind (.check (fun _ _ => trivial) fun _ _ h _ => h) fun _ => ?_
      refine (triple_confirmed fun _ _ => trivial).mono (fun _ h => h) ?_
      rintro _ t' ⟨rfl, ⟨rfl, hobserve⟩, hdurable, hregister, hread⟩
      refine confirmed_of_checks hreceipt ?_ hdurable hregister hread
      intro u y hy
      rw [hobserve] at hy
      cases hy
      rfl
  | unseen =>
      refine .bind (.check (fun _ _ => trivial) fun _ _ h _ => h) fun bytes => ?_
      refine .bind (Q := fun c t' => ∀ receipt x, c = .committed receipt x →
        x = e.lease.proposal ∧ ∃ row, t'.objects.lookup r.resourceIdentity = some row ∧
          row.outcome = x.registrationJson) ?_ fun c => ?_
      · unfold NativeStorage.stage
        refine .bind (.check (fun _ _ => trivial) fun _ _ h _ => h) fun _ => ?_
        refine .bind (.check (fun _ _ => trivial) fun _ _ h _ => h) fun _ => ?_
        refine .bind (Q := fun y t' => ∀ x, y = some x → x = e.lease.proposal ∧ ∃ row,
          t'.objects.lookup r.resourceIdentity = some row ∧ row.outcome = x.registrationJson) ?_ fun y => ?_
        · rintro s ⟨hs, hobserve⟩
          refine ⟨trivial, ?_⟩
          intro y hy x hx
          rcases (triple_stageContext t s hs).2 y hy x hx with ⟨⟨u, hdurable⟩, -⟩ | ⟨-, h⟩
          · rw [hobserve] at hdurable
            cases hdurable
          · exact h
        · cases y with
          | none =>
              refine .pure (fun _ _ => trivial) ?_
              intro _ _ receipt x hx
              cases hx
          | some y =>
              refine .bind (.check (fun _ _ => trivial) fun _ _ h _ => h) fun receipt => ?_
              refine .pure (fun _ _ => trivial) ?_
              intro t' h receipt' x hx
              cases hx
              exact h y rfl
      · cases c with
        | unknown => exact .check (fun _ _ => trivial) fun _ _ _ hv => by cases hv
        | committed receipt x =>
            refine (triple_confirmed fun _ _ => trivial).mono (fun _ h => h) ?_
            rintro _ t' ⟨rfl, hstaged, hdurable, hregister, hread⟩
            obtain ⟨rfl, row, hrow, hout⟩ := hstaged receipt _ rfl
            refine confirmed_of_checks hreceipt ?_ hdurable hregister hread
            intro u y hy
            obtain ⟨row', j, hrow', -, -, hparse⟩ := of_observe_durable hy
            rw [hrow] at hrow'
            cases hrow'
            rw [hout] at hparse
            unfold Outcome.parse at hparse
            rw [hproposal] at hparse
            split_ifs at hparse
            exact (Except.ok.inj hparse).symm
  | prepared => exact .check (fun _ _ => trivial) fun _ _ _ hv => by cases hv
  | unknown => exact .check (fun _ _ => trivial) fun _ _ _ hv => by cases hv
  | cleanupPending => exact .check (fun _ _ => trivial) fun _ _ _ hv => by cases hv
  | cancelledCleaned x => exact .check (fun _ _ => trivial) fun _ _ _ hv => by cases hv
  | corrupt => exact .check (fun _ _ => trivial) fun _ _ _ hv => by cases hv

/-! ## Cleanups -/

/-- The capture of a journaled cleanup has no bodies. -/
theorem bare_of_journaled {j : JournalRow} (hI : Invariant deps t) (hselected : r.selected = none)
    (hj : t.journalOf r.resourceIdentity = [j]) : Bare r.captureId t.objects := by
  have hresource : r.resourceIdentity = r.resourceText none := by
    rw [Request.resourceIdentity, hselected]
    rfl
  have hmem : j ∈ t.journalOf r.resourceIdentity := by
    rw [hj]
    exact List.mem_singleton_self j
  obtain ⟨hjournal, hR⟩ := List.mem_filter.mp hmem
  have hR : j.resource = r.resourceText none := (of_decide_eq_true hR).trans hresource
  rcases hI.row j hjournal with ⟨o, ho⟩ | ⟨-, r', hr', -, hbare⟩
  · obtain ⟨r', p, hr', -⟩ := (hI.object _ o ho).resource
    cases (Request.resourceText_inj (hR.symm.trans hr')).2
  · rw [Request.captureId_of_resourceText (hR.symm.trans hr')]
    exact hbare

/-- The objects of the parts belong to the capture. -/
theorem absent_of_bare (hI : Invariant deps t) (hbare : Bare r.captureId t.objects) :
    ∀ R ∈ r.partResourceIdentities, ∀ row, t.objects.lookup R = some row → row.body = none := by
  intro R hR row hrow
  obtain ⟨p, -, rfl⟩ := List.mem_map.mp hR
  obtain ⟨r', p', hr', hcapture⟩ := (hI.object _ row hrow).resource
  apply hbare _ row hrow
  rw [hcapture, Request.captureId_of_resourceText hr'.symm]

theorem nodup_objectKeys (r : Request) : r.objectKeys.Nodup := by
  unfold Request.objectKeys Request.expected CaptureDescriptor.parts
  rcases hattachment : r.descriptor.attachment with _ | p
  · simp
  · have hdistinct := (r.descriptor.distinct p hattachment).1
    simp [hdistinct]

/-- An outcome that names each object once, and no more than there are, names exactly the objects. -/
theorem perm_of_names {s : Cleaned} (h : CancelledResource.Names r s) :
    s.cleanedObjects.Perm r.objectKeys := by
  have hsub : r.objectKeys ⊆ s.cleanedObjects := by
    intro k hk
    apply List.count_pos_iff.mp
    rw [h.count_eq k hk]
    exact Nat.one_pos
  have hsubperm := List.subperm_of_subset (nodup_objectKeys r) hsub
  exact (hsubperm.perm_of_length_le (le_of_eq h.length_eq)).symm

theorem triple_finishCleanup {P : Tables → Prop} {e : Effect} {c : CancelledResource}
    (hP : ∀ t', P t' → Reaches deps t t') :
    Triple P (NativeStorage.finishCleanup deps e r c)
      (fun o t' => (∀ x, o = some x →
        cleanedBefore deps e.lease r c t' = .ok (some x) ∨ Bare r.captureId t'.objects) ∧
        Reaches deps t t') (Reaches deps t) := by
  unfold NativeStorage.finishCleanup
  refine .bind (.check hP fun _ _ h _ => h) fun keys => ?_
  refine .bind (.check hP fun _ _ h _ => h) fun _ => ?_
  refine .bind (triple_cleanupContext hP).always fun o => ?_
  cases o with
  | none =>
      refine .pure (fun _ h => h.2) ?_
      rintro t' ⟨-, hreach⟩
      refine ⟨?_, hreach⟩
      intro x hx
      cases hx
  | some x =>
      refine .bind (.check (fun _ h => h.2) fun _ _ h _ => h) fun _ => ?_
      refine .pure (fun _ h => h.2) ?_
      rintro t' ⟨h, hreach⟩
      refine ⟨?_, hreach⟩
      intro y hy
      cases hy
      rcases h x rfl with h | ⟨-, -, h⟩
      · exact Or.inl h
      · exact Or.inr h

theorem of_cleanedBefore {c : CancelledResource} {x : Outcome}
    (h : cleanedBefore deps e r c t = .ok (some x)) :
    ∃ j, t.journalOf r.resourceIdentity = [j] := by
  unfold cleanedBefore at h
  obtain ⟨_, -, h⟩ := bind_eq_ok.mp h
  obtain ⟨_, -, h⟩ := bind_eq_ok.mp h
  split at h
  case h_1 => cases h
  case h_2 j hj => exact ⟨j, hj⟩
  case h_3 => cases h

/-- Before its last checks, a cleanup has an outcome of a capture without bodies. -/
theorem triple_cleaned {e : Effect} {c : CancelledResource} {o : Observation ObjectReceipt Outcome}
    (hI : Invariant deps t) :
    Triple (fun t' => t' = t ∧ observe deps e.lease r t = .ok o.erase) (Parent.cleaned deps r e c o)
      (fun _ t' => (r.selected = none → Bare r.captureId t'.objects) ∧ Reaches deps t t')
      (Reaches deps t) := by
  have hP : ∀ t', (t' = t ∧ observe deps e.lease r t = .ok o.erase) → Reaches deps t t' := by
    rintro _ ⟨rfl, -⟩
    exact .refl
  have hcheck (x : Refusal) : Triple (fun t' => t' = t ∧ observe deps e.lease r t = .ok o.erase)
      (check (.error x) : Sql Tables Refusal Outcome)
      (fun _ t' => (r.selected = none → Bare r.captureId t'.objects) ∧ Reaches deps t t')
      (Reaches deps t) := .check hP fun _ _ _ hv => by cases hv
  have hfinish : Triple (fun t' => t' = t ∧ observe deps e.lease r t = .ok o.erase)
      (Parent.cleaned deps r e c .unseen)
      (fun _ t' => (r.selected = none → Bare r.captureId t'.objects) ∧ Reaches deps t t')
      (Reaches deps t) := by
    unfold Parent.cleaned
    refine .bind (Q := fun _ => Reaches deps t) ?_ fun _ => ?_
    · unfold NativeStorage.tombstone
      refine .bind (.check hP fun _ _ h _ => h) fun keys => ?_
      refine .bind (.check hP fun _ _ h _ => h) fun _ => ?_
      exact (triple_tombstoneContext hP).always.mono (fun _ h => h) fun _ _ h => h.2
    · refine .bind (triple_finishCleanup fun _ h => h) fun y => ?_
      cases y with
      | none => exact .check (fun _ h => h.2) fun _ _ _ hv => by cases hv
      | some x =>
          refine .pure (fun _ h => h.2) ?_
          rintro t' ⟨h, hreach⟩
          refine ⟨?_, hreach⟩
          intro hselected
          rcases h x rfl with h | h
          · obtain ⟨j, hj⟩ := of_cleanedBefore h
            exact bare_of_journaled (invariant_and_later hI hreach).1 hselected hj
          · exact h
  cases o with
  | cancelledCleaned x =>
      refine .pure hP ?_
      rintro t' ⟨rfl, hobserve⟩
      refine ⟨?_, .refl⟩
      intro hselected
      obtain ⟨j, hj⟩ := of_observe_cancelledCleaned hobserve
      exact bare_of_journaled hI hselected hj
  | unseen => exact hfinish
  | durable receipt x => exact hfinish
  | cleanupPending => exact hfinish
  | unknown => exact hcheck _
  | prepared => exact hcheck _
  | corrupt => exact hcheck _

theorem triple_cleanup (hI : Invariant deps t) :
    Triple (fun t' => t' = t) (Parent.cleanup deps control d refs r) (fun o t' => Removed r t' o)
      (Reaches deps t) := by
  have hP : ∀ t', t' = t → Reaches deps t t' := by
    rintro _ rfl
    exact .refl
  unfold Parent.cleanup
  refine triple_authorized hP fun e binding _ _ => ?_
  refine .bind (.check hP fun _ _ h _ => h) fun c => ?_
  refine .bind (triple_observe hP) fun o => ?_
  refine .bind (Q := fun _ t' => (r.selected = none → Bare r.captureId t'.objects) ∧ Reaches deps t t')
    ?_ fun x => ?_
  · refine (triple_cleaned (o := o) hI).mono ?_ fun _ _ h => h
    rintro _ ⟨rfl, o', hobserve, hproject⟩
    exact ⟨rfl, by rw [hobserve, project_eq_ok hproject]⟩
  · refine .bind (Q := fun _ t' => Removed r t' x ∧ Reaches deps t t')
      (.check (fun _ h => h.2) ?_) fun _ => ?_
    · rintro t' _ ⟨hbare, hreach⟩ hverify
      unfold Effect.verifyCleaned at hverify
      obtain ⟨_, -, hverify⟩ := bind_eq_ok.mp hverify
      obtain ⟨_, hcleaned, -⟩ := bind_eq_ok.mp hverify
      obtain ⟨hselected, s, rfl, hnames⟩ := CancelledResource.of_verifyCleaned hcleaned
      have hI' := (invariant_and_later hI hreach).1
      exact ⟨⟨absent_of_bare hI' (hbare hselected), s, rfl, perm_of_names hnames⟩, hreach⟩
    · refine .bind (.check (fun _ h => h.2) fun _ _ h _ => h) fun _ => ?_
      exact .pure (fun _ h => h.2) fun _ h => h

/-! ## Tables that are not touched -/

theorem undecided_erase {o : Observation ObjectReceipt Outcome}
    (hu : Undecided deps e r t) (h : observe deps e r t = .ok o.erase) :
    o = .prepared ∨ o = .unknown ∨ o = .corrupt := by
  cases o with
  | prepared => exact Or.inl rfl
  | unknown => exact Or.inr (Or.inl rfl)
  | corrupt => exact Or.inr (Or.inr rfl)
  | durable receipt x => rcases hu with hu | hu | hu <;> rw [h] at hu <;> cases hu
  | unseen => rcases hu with hu | hu | hu <;> rw [h] at hu <;> cases hu
  | cleanupPending => rcases hu with hu | hu | hu <;> rw [h] at hu <;> cases hu
  | cancelledCleaned x => rcases hu with hu | hu | hu <;> rw [h] at hu <;> cases hu

theorem triple_write_untouched {body : Except Refusal Bytes}
    (h : ∀ e binding, Gives control d refs r .stage e binding → binding.Fits d r .stage →
      Undecided deps e r t) :
    Triple (fun t' => t' = t) (Parent.writeOrReconcile deps control d refs r body) (fun _ _ => True)
      (fun t' => t' = t) := by
  unfold Parent.writeOrReconcile
  refine triple_authorized (fun _ h => h) fun e binding hgives hfits => ?_
  refine .bind (triple_observe fun _ h => h) fun o => ?_
  by_cases ho : o = .prepared ∨ o = .unknown ∨ o = .corrupt
  · rcases ho with rfl | rfl | rfl <;>
      exact .check (fun _ h => h.1) fun _ _ _ hv => by cases hv
  · apply Triple.absurd
    rintro _ ⟨rfl, o', hobserve, hproject⟩
    apply ho
    apply undecided_erase (h e binding hgives hfits)
    rw [hobserve, project_eq_ok hproject]

theorem triple_cleanup_untouched
    (h : ∀ e binding, Gives control d refs r .cleanupCancelled e binding →
      binding.Fits d r .cleanupCancelled → Undecided deps e r t) :
    Triple (fun t' => t' = t) (Parent.cleanup deps control d refs r) (fun _ _ => True)
      (fun t' => t' = t) := by
  unfold Parent.cleanup
  refine triple_authorized (fun _ h => h) fun e binding hgives hfits => ?_
  refine .bind (.check (fun _ h => h) fun _ _ h _ => h) fun c => ?_
  refine .bind (triple_observe fun _ h => h) fun o => ?_
  by_cases ho : o = .prepared ∨ o = .unknown ∨ o = .corrupt
  · refine .bind (Q := fun _ _ => False) ?_ fun _ => .absurd fun _ h => h
    rcases ho with rfl | rfl | rfl <;>
      exact .check (fun _ h => h.1) fun _ _ _ hv => by cases hv
  · apply Triple.absurd
    rintro _ ⟨rfl, o', hobserve, hproject⟩
    apply ho
    apply undecided_erase (h e binding hgives hfits)
    rw [hobserve, project_eq_ok hproject]

theorem gives_unique {op : Operation} {e e' : NativeCommitContext} {binding binding' : LeaseBinding}
    (h : Gives control d refs r op e binding) (h' : Gives control d refs r op e' binding') : e = e' := by
  obtain ⟨lease, hs, he⟩ := h
  obtain ⟨lease', hs', he'⟩ := h'
  rw [hs] at hs'
  cases hs'
  rw [he] at he'
  cases he'
  rfl

/-- A program that changes nothing unless a fitting lease meets a decided observation. -/
theorem untouched_of_triple {op : Operation} {m : Sql Tables Refusal Outcome} {s : Session Tables}
    (h : (∀ e binding, Gives control d refs r op e binding → binding.Fits d r op →
        Undecided deps e r s.durable) →
      Triple (fun t' => t' = s.durable) m (fun _ _ => True) (fun t' => t' = s.durable)) :
    Untouched deps control d refs r op s.durable (m s).2.durable where
  unbound := by
    intro hnone
    exact (h (fun e binding hgives hfits => absurd hfits (hnone e binding hgives)) s rfl).1
  undecided := by
    intro e binding hgives hu
    refine (h ?_ s rfl).1
    intro e' binding' hgives' _
    rw [gives_unique hgives' hgives]
    exact hu

/-! ## The law -/

/-- **Confirmation is sound**: on every store that calls have led to, for every control plane and whatever
fails. `hreceipt` and `hproposal` are about `serde_json`: what is written of the receipts of the request and
of the proposals of the leases is read back as it was. -/
theorem confirmation_sound (deps : Deps) (control : Control σ) (d : DeploymentBinding)
    (refs : ProtectedConfigReferences) (r : Request) (body : Except Refusal Bytes) (es : List (Event Call))
    (uncertain : Bool) (faults : List Fault)
    (hreceipt : ∀ p, r.selected = some p →
      deps.receiptFromSlice (utf8 (r.descriptor.expectedReceipt p).toJson) =
        some (r.descriptor.expectedReceipt p))
    (hproposal : ∀ e binding, Gives control d refs r .stage e binding →
      deps.outcomeFromSlice (utf8 e.proposal.registrationJson) = some e.proposal) :
    let s : Session Tables := ⟨tablesAfter deps es, uncertain, faults⟩
    let write := Parent.writeOrReconcile deps control d refs r body s
    let cleanup := Parent.cleanup deps control d refs r s
    (∀ o, write.1 = .ok o → ∃ e binding, Gives control d refs r .stage e binding ∧
        binding.Fits d r .stage ∧ Confirmed deps control e r write.2.durable o) ∧
      (∀ o, cleanup.1 = .ok o → Removed r cleanup.2.durable o) ∧
      Untouched deps control d refs r .stage s.durable write.2.durable ∧
      Untouched deps control d refs r .cleanupCancelled s.durable cleanup.2.durable := by
  intro s write cleanup
  have hI : Invariant deps (tablesAfter deps es) :=
    (invariant_and_later Invariant.empty (durable_run reaches_exec fresh es)).1
  refine ⟨?_, (triple_cleanup hI s rfl).2, untouched_of_triple triple_write_untouched,
    untouched_of_triple triple_cleanup_untouched⟩
  have hwrite : Triple (fun t' => t' = s.durable) (Parent.writeOrReconcile deps control d refs r body)
      (fun o t' => ∃ e binding, Gives control d refs r .stage e binding ∧ binding.Fits d r .stage ∧
        Confirmed deps control e r t' o) (fun _ => True) := by
    unfold Parent.writeOrReconcile
    refine triple_authorized (fun _ _ => trivial) fun e binding hgives hfits => ?_
    refine .bind (triple_observe fun _ _ => trivial) fun o => ?_
    refine (triple_reconcile (t := s.durable) (o := o) hreceipt (hproposal e binding hgives)).mono ?_ ?_
    · rintro _ ⟨rfl, o', hobserve, hproject⟩
      exact ⟨rfl, by rw [hobserve, project_eq_ok hproject]⟩
    · intro x t' h
      exact ⟨⟨e, binding, hgives, hfits, h⟩, trivial⟩
  exact (hwrite s rfl).2

/-! ## A confirmed write -/

section Example

def noteDeployment : DeploymentBinding where
  issuer := "issuer".toList
  realmId := noteCapture.realmId
  deploymentGeneration := 1
  participantConfigVersion := 1
  keyDomainRef := "keys".toList
  executableSha256 := note.sha256
  configSha256 := note.sha256

def noteReferences : ProtectedConfigReferences := ⟨"provisioner".toList, "auth".toList⟩

/-- A control plane that hands out the lease of the note. -/
def noteControl : Control Unit where
  withStartup d _ := .ok ((), d)
  afterStartup _ _ := none
  withEffect _ r op := .ok (noteContext, ⟨noteDeployment, r.descriptorIdentity, r.resourceIdentity, op⟩)
  afterEffect _ _ _ := none
  cancelledResource _ _ := .error .notAvailable
  durableBinding _ _ o := .ok ⟨o.originalIdentity, noteStored.storageReceiptId⟩
  cleanedBinding _ _ o := .ok o.originalIdentity
  registerOriginalOutcome _ _ _ := .ok ()

theorem receiptFromSlice_note :
    noteDeps.receiptFromSlice (utf8 (noteCapture.expectedReceipt note).toJson) =
      some (noteCapture.expectedReceipt note) := by
  have h : ∀ bytes, bytes = utf8 (noteCapture.expectedReceipt note).toJson →
      noteDeps.receiptFromSlice bytes = some (noteCapture.expectedReceipt note) := fun _ h => if_pos h
  exact h _ rfl

theorem outcomeFromSlice_note :
    noteDeps.outcomeFromSlice (utf8 noteContext.proposal.registrationJson) = some noteContext.proposal := by
  have h : ∀ bytes, bytes = utf8 (Outcome.registrationJson (.stored noteStored)) →
      noteDeps.outcomeFromSlice bytes = some (.stored noteStored) := fun _ h => if_pos h
  exact h _ rfl

theorem written_note :
    (Parent.writeOrReconcile noteDeps noteControl noteDeployment noteReferences noteRequest (.ok noteBody)
      ⟨tablesAfter noteDeps [], false, []⟩).1 = .ok (.stored noteStored) := by
  decide +kernel

/-- The note is written to a new store, and confirmed. -/
theorem confirmed_note :
    let write := Parent.writeOrReconcile noteDeps noteControl noteDeployment noteReferences noteRequest
      (.ok noteBody) ⟨tablesAfter noteDeps [], false, []⟩
    write.1 = .ok (.stored noteStored) ∧ ∃ e binding,
      Gives noteControl noteDeployment noteReferences noteRequest .stage e binding ∧
        binding.Fits noteDeployment noteRequest .stage ∧
        Confirmed noteDeps noteControl e noteRequest write.2.durable (.stored noteStored) := by
  refine ⟨written_note, (confirmation_sound noteDeps noteControl noteDeployment noteReferences noteRequest
    (.ok noteBody) [] false [] ?_ ?_).1 _ written_note⟩
  · intro p hp
    cases hp
    exact receiptFromSlice_note
  · rintro e binding ⟨lease, -, he⟩
    cases he
    exact outcomeFromSlice_note

end Example

end DiskArcana.Personal
