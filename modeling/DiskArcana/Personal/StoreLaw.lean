import DiskArcana.Personal.Changes

/-!
# What the personal store keeps

Every call changes the tables by the transactions of `Change` only, whatever fails in between, and returns an
outcome only if it is durable (`triple_stageContext`, `triple_cleanupContext`). So the law of the four
tables holds over all runs, through lost commits and reopened stores (`storeLaw_of_calls`).
-/

namespace DiskArcana.Personal

open DiskArcana.Lib DiskArcana.Lib.Transactions DiskArcana.Accounts Relation

variable {deps : Deps} {t t' : Tables} {e : NativeCommitContext} {r : Request}

/-! ## Calls -/

/-- Under a tombstone, only a cleaned outcome of the journal is observed. -/
theorem observeCancelled_eq_ok {cancelled : Text} {o : Observation Unit Outcome}
    (h : observeCancelled deps e r t cancelled = .ok o) :
    o = .cleanupPending ∨ o = .corrupt ∨
      ∃ x row, o = .cancelledCleaned x ∧ t.journalOf r.resourceIdentity = [row] := by
  unfold observeCancelled at h
  split at h
  case h_1 => exact Or.inl (Except.ok.inj h).symm
  case h_3 => exact Or.inr (Or.inl (Except.ok.inj h).symm)
  case h_2 row hrow =>
    obtain ⟨outcome, -, h⟩ := bind_eq_ok.mp h
    cases outcome with
    | stored s =>
        dsimp only at h
        split_ifs at h
        · exact Or.inr (Or.inl (Except.ok.inj h).symm)
        · exact Or.inl (Except.ok.inj h).symm
    | cleaned s =>
        dsimp only at h
        split_ifs at h
        obtain ⟨c, -, h⟩ := bind_eq_ok.mp h
        obtain ⟨_, -, h⟩ := bind_eq_ok.mp h
        exact Or.inr (Or.inr ⟨_, row, (Except.ok.inj h).symm, hrow⟩)

/-- An object is observed as durable with the only row of its journal. -/
theorem observeObject_eq_ok {a : Attempt} {row : Object} {o : Observation Unit Outcome}
    (h : observeObject deps e r t a row = .ok o) :
    o = .corrupt ∨ ∃ x j, o = .durable () x ∧ t.journalOf r.resourceIdentity = [j] ∧
      j.outcome = row.outcome ∧ Outcome.parse deps (utf8 row.outcome) = .ok x := by
  unfold observeObject at h
  obtain ⟨x, hparse, h⟩ := bind_eq_ok.mp h
  obtain ⟨_, -, h⟩ := bind_eq_ok.mp h
  obtain ⟨_, -, h⟩ := bind_eq_ok.mp h
  split_ifs at h with hcorrupt
  · exact Or.inl (Except.ok.inj h).symm
  · have hjournal := not_not.mp fun hne => hcorrupt (Or.inl hne)
    obtain ⟨j, hj, hcolumns⟩ := List.map_eq_singleton_iff.mp hjournal
    exact Or.inr ⟨x, j, (Except.ok.inj h).symm, hj, congrArg Prod.fst hcolumns, hparse⟩

/-- What is observed is observed under a tombstone, or without one. -/
theorem observe_eq_ok {o : Observation Unit Outcome} (h : observe deps e r t = .ok o) :
    observeAttempt deps e r t = .ok o ∨ ∃ cancelled, observeCancelled deps e r t cancelled = .ok o := by
  unfold observe at h
  obtain ⟨cancelled, -, h⟩ := bind_eq_ok.mp h
  rcases cancelled with _ | _ | cancelled
  · exact Or.inl h
  · exact Or.inl h
  · exact Or.inr ⟨cancelled, h⟩

/-- A resource that has not been seen has no rows, and is known not to have been committed. -/
theorem of_observe_unseen (h : observe deps e r t = .ok .unseen) :
    t.attempts.lookup r.resourceIdentity = none ∧ t.objects.lookup r.resourceIdentity = none ∧
      t.journalOf r.resourceIdentity = [] ∧ e.disposition = .fencedNoCommit := by
  rcases observe_eq_ok h with hattempt | ⟨_, h⟩
  · unfold observeAttempt at hattempt
    split at hattempt
    case h_1 => split_ifs at hattempt <;> cases hattempt
    case h_2 => cases hattempt
    case h_3 => rcases observeObject_eq_ok hattempt with h | ⟨_, _, h, -⟩ <;> cases h
    case h_4 => cases hattempt
    case h_5 => cases hattempt
    case h_6 ha ho =>
      split_ifs at hattempt with hempty
      · cases hattempt
      · refine ⟨ha, ho, by simpa using hempty, ?_⟩
        rcases hdisposition : e.disposition with _ | _
        · rfl
        · rw [hdisposition] at hattempt
          cases hattempt
  · rcases observeCancelled_eq_ok h with h | h | ⟨_, _, h, -⟩ <;> cases h

/-- A durable outcome is the one of the object, and of the only row of the journal. -/
theorem of_observe_durable {u : Unit} {x : Outcome} (h : observe deps e r t = .ok (.durable u x)) :
    ∃ row j, t.objects.lookup r.resourceIdentity = some row ∧ t.journalOf r.resourceIdentity = [j] ∧
      j.outcome = row.outcome ∧ Outcome.parse deps (utf8 row.outcome) = .ok x := by
  rcases observe_eq_ok h with hattempt | ⟨_, h⟩
  · unfold observeAttempt at hattempt
    split at hattempt
    case h_1 => split_ifs at hattempt <;> cases hattempt
    case h_2 => cases hattempt
    case h_4 => cases hattempt
    case h_5 => cases hattempt
    case h_6 =>
      split_ifs at hattempt
      · cases hattempt
      · rcases hdisposition : e.disposition with _ | _ <;> rw [hdisposition] at hattempt <;>
          cases hattempt
    case h_3 _ _ row _ hrow =>
      rcases observeObject_eq_ok hattempt with h | ⟨_, j, h, hj, hout, hparse⟩
      · cases h
      · cases h
        exact ⟨row, j, hrow, hj, hout, hparse⟩
  · rcases observeCancelled_eq_ok h with h | h | ⟨_, _, h, -⟩ <;> cases h

/-- A cleaned outcome is observed in the only row of the journal. -/
theorem of_observe_cancelledCleaned {x : Outcome}
    (h : observe deps e r t = .ok (.cancelledCleaned x)) :
    ∃ j, t.journalOf r.resourceIdentity = [j] := by
  rcases observe_eq_ok h with hattempt | ⟨_, h⟩
  · unfold observeAttempt at hattempt
    split at hattempt
    case h_1 => split_ifs at hattempt <;> cases hattempt
    case h_2 => cases hattempt
    case h_3 => rcases observeObject_eq_ok hattempt with h | ⟨_, _, h, -⟩ <;> cases h
    case h_4 => cases hattempt
    case h_5 => cases hattempt
    case h_6 =>
      split_ifs at hattempt
      · cases hattempt
      · rcases hdisposition : e.disposition with _ | _ <;> rw [hdisposition] at hattempt <;>
          cases hattempt
  · rcases observeCancelled_eq_ok h with h | h | ⟨_, j, -, hj⟩
    · cases h
    · cases h
    · exact ⟨j, hj⟩

section Rules

variable {P Q A : Tables → Prop} {body : Tables → Except (Stop Refusal) Tables}

/-- An effect is settled only when its last transaction has taken effect. -/
theorem triple_settle (h : Triple P (transaction body) (fun _ => Q) A) :
    Triple P (settle e body) (fun o t => ∀ x, o = some x → x = e.proposal ∧ Q t) A := by
  apply Triple.bind (Triple.attempt h)
  intro a
  have hnone : Triple (fun t => A t ∧ ∀ v, a = .ok v → Q t) (pure none : Sql Tables Refusal _)
      (fun o t => ∀ x, o = some x → x = e.proposal ∧ Q t) A :=
    .pure (fun _ h => h.1) fun _ _ x hx => by cases hx
  have hcheck (x : Refusal) : Triple (fun t => A t ∧ ∀ v, a = .ok v → Q t)
      (check (.error x) : Sql Tables Refusal (Option Outcome))
      (fun o t => ∀ x, o = some x → x = e.proposal ∧ Q t) A :=
    .check (fun _ h => h.1) fun _ _ _ hv => by cases hv
  rcases a with x | _
  · cases x with
    | pending => exact hnone
    | unavailable => exact hnone
    | notAvailable => exact hcheck _
    | conflict => exact hcheck _
    | backpressure => exact hcheck _
  · refine .pure (fun _ h => h.1) ?_
    rintro t ⟨-, hQ⟩ x hx
    cases hx
    exact ⟨rfl, hQ () rfl⟩

end Rules

variable {bytes : Bytes} {max : ℕ} {keys : List ObjectKey} {c : CancelledResource}

theorem triple_readContext {P A : Tables → Prop} (hA : ∀ t, P t → A t) :
    Triple P (readContext deps e r max) (fun v t => P t ∧ readExact deps e r max t = .ok v) A := by
  apply Triple.bind (Q := fun _ => P) (.check hA fun _ _ h _ => h)
  intro _
  exact .reading hA fun _ _ h hread => ⟨h, hread⟩

theorem triple_stageUnseen (hchecks : stageChecks deps e r bytes = .ok ())
    (hunseen : observe deps e r t = .ok .unseen) :
    Triple (fun t' => t' = t) (stageUnseen e r bytes)
      (fun o t' => ∀ x, o = some x → x = e.proposal ∧ ∃ row,
        t'.objects.lookup r.resourceIdentity = some row ∧ row.outcome = x.registrationJson)
      (Reaches deps t) := by
  obtain ⟨-, hobject, hjournal, -⟩ := of_observe_unseen hunseen
  unfold stageChecks at hchecks
  obtain ⟨_, -, hchecks⟩ := bind_eq_ok.mp hchecks
  obtain ⟨_, hbody, hchecks⟩ := bind_eq_ok.mp hchecks
  obtain ⟨_, -, hchecks⟩ := bind_eq_ok.mp hchecks
  have hstored : ∃ s, e.proposal = .stored s := by
    rcases hproposal : e.proposal with s | s
    · exact ⟨s, rfl⟩
    · rw [hproposal] at hchecks
      cases hchecks
  obtain ⟨s, hproposal⟩ := hstored
  unfold stageUnseen
  apply Triple.bind (Q := fun _ t' => t' = prepared e r t ∧ Reaches deps t t')
  · apply Triple.transaction
    · rintro _ rfl
      exact .refl
    · rintro _ t' rfl h
      have hreach : Reaches deps _ t' := .single (.prepare hobject h)
      exact ⟨hreach, (prepare_eq_ok h).2, hreach⟩
  · intro _
    apply Triple.bind
      (Q := fun receipt t' => r.selectedReceiptJson = .ok receipt ∧ t' = prepared e r t ∧ Reaches deps t t')
    · exact .check (fun _ h => h.2) fun _ _ h hreceipt => ⟨hreceipt, h⟩
    · intro receipt
      have hselected : r.selectedReceiptJson = .ok receipt → ∃ p, r.selected = some p := by
        intro h
        rw [Request.selectedReceiptJson, Request.selectedReceipt] at h
        rcases hp : r.selected with _ | p
        · rw [hp] at h
          cases h
        · exact ⟨p, rfl⟩
      refine (triple_settle (Q := fun t' => ∃ row, t'.objects.lookup r.resourceIdentity = some row ∧
        row.outcome = e.proposal.registrationJson) (.transaction (fun _ h => h.2.2) ?_)).mono
        (fun _ h => h) ?_
      · rintro _ t' ⟨hreceipt, rfl, hreach⟩ h
        obtain ⟨p, hp⟩ := hselected hreceipt
        have hattempt' : (prepared e r t).attempts.lookup r.resourceIdentity =
            some ⟨e.lease, e.proposal.registrationJson, .prepared⟩ := by
          rw [prepared, Table.lookup_insert_eq_ite, if_pos rfl]
        refine ⟨hreach.tail (.commit hproposal hp hreceipt hbody hattempt' hjournal h), ?_⟩
        obtain ⟨-, -, -, rfl⟩ := commit_eq_ok h hattempt'
        exact ⟨_, by rw [committed, Table.lookup_insert_eq_ite, if_pos rfl], rfl⟩
      · intro o t' h x hx
        obtain ⟨rfl, hrow⟩ := h x hx
        exact ⟨rfl, hrow⟩

/-- What `stage_context` leaves behind: it returns an outcome that is durable already, or one it has
committed. -/
theorem triple_stageContext (t : Tables) :
    Triple (fun t' => t' = t) (stageContext deps e r bytes)
      (fun o t' => ∀ x, o = some x →
        (∃ u, observe deps e r t = .ok (.durable u x)) ∧ t' = t ∨
        observe deps e r t = .ok .unseen ∧ x = e.proposal ∧ ∃ row,
          t'.objects.lookup r.resourceIdentity = some row ∧ row.outcome = x.registrationJson)
      (Reaches deps t) := by
  unfold stageContext
  apply Triple.bind (Q := fun _ t' => t' = t ∧ stageChecks deps e r bytes = .ok ())
  · refine .check ?_ ?_
    · rintro _ rfl
      exact .refl
    · rintro _ _ rfl h
      exact ⟨rfl, h⟩
  intro _
  apply Triple.bind
    (Q := fun o t' => t' = t ∧ stageChecks deps e r bytes = .ok () ∧ observe deps e r t = .ok o)
  · refine .reading ?_ ?_
    · rintro _ ⟨rfl, -⟩
      exact .refl
    · rintro _ o ⟨rfl, hchecks⟩ h
      exact ⟨rfl, hchecks, h⟩
  intro o
  have hrefl : ∀ t', (t' = t ∧ stageChecks deps e r bytes = .ok () ∧ observe deps e r t = .ok o) →
      Reaches deps t t' := by
    rintro _ ⟨rfl, -⟩
    exact .refl
  have hcheck (x : Refusal) : Triple
      (fun t' => t' = t ∧ stageChecks deps e r bytes = .ok () ∧ observe deps e r t = .ok o)
      (check (.error x) : Sql Tables Refusal (Option Outcome)) (fun o' t' => ∀ x, o' = some x →
        (∃ u, observe deps e r t = .ok (.durable u x)) ∧ t' = t ∨
        observe deps e r t = .ok .unseen ∧ x = e.proposal ∧ ∃ row,
          t'.objects.lookup r.resourceIdentity = some row ∧ row.outcome = x.registrationJson)
      (Reaches deps t) :=
    .check hrefl fun _ _ _ hv => by cases hv
  cases o with
  | durable u outcome =>
      refine .bind (.check hrefl fun _ _ h _ => h) fun _ => ?_
      refine .bind (triple_readContext hrefl) fun _ => ?_
      refine .pure (fun _ h => hrefl _ h.1) ?_
      rintro t' ⟨⟨ht, -, hobserve⟩, -⟩ x hx
      cases hx
      exact Or.inl ⟨⟨u, hobserve⟩, ht⟩
  | unseen =>
      intro s hs
      obtain ⟨ht, hchecks, hobserve⟩ := hs
      obtain ⟨hA, hQ⟩ := triple_stageUnseen hchecks hobserve s ht
      refine ⟨hA, ?_⟩
      intro o ho x hx
      exact Or.inr ⟨hobserve, hQ o ho x hx⟩
  | prepared => exact hcheck _
  | unknown => exact hcheck _
  | cleanupPending => exact hcheck _
  | cancelledCleaned outcome => exact hcheck _
  | corrupt => exact hcheck _

theorem of_cancelChecks (h : cancelChecks e r keys c = .ok ()) :
    r.selected = none ∧ ∃ s, e.proposal = .cleaned s ∧ CancelledResource.Names r s := by
  unfold cancelChecks at h
  obtain ⟨_, -, h⟩ := bind_eq_ok.mp h
  obtain ⟨_, -, h⟩ := bind_eq_ok.mp h
  obtain ⟨_, -, h⟩ := bind_eq_ok.mp h
  exact CancelledResource.of_verifyCleaned h

theorem triple_tombstoneContext {P : Tables → Prop} (hP : ∀ t', P t' → Reaches deps t t') :
    Triple P (tombstoneContext e r keys c) (fun _ _ => True) (Reaches deps t) := by
  unfold tombstoneContext
  refine .bind (Q := fun _ => P) (.check hP fun _ _ h _ => h) fun _ => ?_
  refine .transaction hP ?_
  intro t₁ t' h₁ h
  exact ⟨(hP _ h₁).tail (.tombstone h), trivial⟩

theorem of_cleanedBefore_none (h : cleanedBefore deps e r c t = .ok none) :
    ∃ cancelled, capture r t = .ok (some (some cancelled)) := by
  unfold cleanedBefore at h
  obtain ⟨cancelled, hcapture, h⟩ := bind_eq_ok.mp h
  obtain ⟨_, hrequire, -⟩ := bind_eq_ok.mp h
  unfold require at hrequire
  split_ifs at hrequire with heq
  exact ⟨c.toJson, by rw [hcapture, of_decide_eq_true heq]⟩

/-- What `cleanup_context` leaves behind: it returns an outcome that was journaled before, or one it has
journaled after removing all bodies. -/
theorem triple_cleanupContext {P : Tables → Prop} (hP : ∀ t', P t' → Reaches deps t t') :
    Triple P (cleanupContext deps e r keys c)
      (fun o t' => ∀ x, o = some x →
        cleanedBefore deps e r c t' = .ok (some x) ∨
        x = e.proposal ∧ cancelChecks e r keys c = .ok () ∧ Bare r.captureId t'.objects)
      (Reaches deps t) := by
  unfold cleanupContext
  apply Triple.bind (Q := fun _ t' => P t' ∧ cancelChecks e r keys c = .ok ())
  · exact .check hP fun _ _ h hchecks => ⟨h, hchecks⟩
  intro _
  apply Triple.bind
    (Q := fun o t' => P t' ∧ cancelChecks e r keys c = .ok () ∧ cleanedBefore deps e r c t' = .ok o)
  · exact .reading (fun _ h => hP _ h.1) fun _ _ h hbefore => ⟨h.1, h.2, hbefore⟩
  intro o
  cases o with
  | some x =>
      refine .pure (fun _ h => hP _ h.1) ?_
      rintro t' ⟨h, -, hbefore⟩ y hy
      cases hy
      exact Or.inl hbefore
  | none =>
      refine (triple_settle
        (Q := fun t' => cancelChecks e r keys c = .ok () ∧ Bare r.captureId t'.objects)
        (.transaction (fun _ h => hP _ h.1) ?_)).mono (fun _ h => h) ?_
      · rintro t₁ t' ⟨h₁, hchecks, hbefore⟩ h
        obtain ⟨hselected, s, hproposal, -⟩ := of_cancelChecks hchecks
        obtain ⟨cancelled, hcapture⟩ := of_cleanedBefore_none hbefore
        refine ⟨(hP _ h₁).tail (.clean hproposal hselected hcapture h), hchecks, ?_⟩
        exact (clean_eq_ok h).2.2.2.1
      · intro o t' h x hx
        exact Or.inr (h x hx)

/-- Every call changes the tables by such transactions only. -/
theorem reaches_exec (call : Call) (s : Session Tables) :
    Reaches deps s.durable (exec deps call s).durable := by
  have hP : ∀ t', t' = s.durable → Reaches deps s.durable t' := by
    rintro _ rfl
    exact .refl
  cases call with
  | stage e r bytes => exact (triple_stageContext s.durable s rfl).1
  | observe e r =>
      have h : Triple (fun t' => t' = s.durable) (observeContext deps e r) (fun _ _ => True)
          (Reaches deps s.durable) :=
        .bind (Q := fun _ t' => t' = s.durable) (.check hP fun _ _ h _ => h) fun _ =>
          .reading hP fun _ _ _ _ => trivial
      exact (h s rfl).1
  | read e r max => exact (triple_readContext hP s rfl).1
  | tombstone e r keys c => exact (triple_tombstoneContext hP s rfl).1
  | cleanup e r keys c => exact (triple_cleanupContext hP s rfl).1

/-! ## The law -/

/-- What holds in every state of the store. -/
structure StoreLaw (deps : Deps) (t : Tables) : Prop where
  /-- Objects, committed attempts and single `disk_stored` rows go together. -/
  committed_iff : ∀ R, (∃ o, t.objects.lookup R = some o) ↔
    ∃ a, t.attempts.lookup R = some a ∧ a.state = .committed
  stored_iff : ∀ R, (∃ o, t.objects.lookup R = some o) ↔
    ∃! j, j ∈ t.ownerJournal ∧ j.resource = R ∧ IsStored j.outcome
  same_text : ∀ R o a, t.objects.lookup R = some o → t.attempts.lookup R = some a →
    a.proposal = o.outcome ∧
      ∀ j ∈ t.ownerJournal, j.resource = R → IsStored j.outcome → j.outcome = o.outcome
  length_le : t.ownerJournal.length ≤ 128
  receipts : (t.ownerJournal.map JournalRow.ownerReceipt).Nodup
  leases : (t.ownerJournal.map JournalRow.lease).Nodup
  sequences : (t.ownerJournal.map JournalRow.sequence).Nodup
  bodies : ∀ R o bytes, t.objects.lookup R = some o → o.body = some bytes → Agrees deps o.receipt bytes
  cleaned : ∀ j ∈ t.ownerJournal, IsCleaned j.outcome → ∀ r : Request, j.resource = r.resourceIdentity →
    ∀ R o, t.objects.lookup R = some o → o.capture = r.captureId → o.body = none

theorem eq_of_mem_journalOf {R : Text} {j j' : JournalRow} (hj : t.journalOf R = [j]) (hj' : j' ∈ t.ownerJournal)
    (hR : j'.resource = R) : j' = j := by
  have hmem : j' ∈ t.journalOf R := List.mem_filter.mpr ⟨hj', by simpa using hR⟩
  rw [hj] at hmem
  exact List.mem_singleton.mp hmem

theorem Invariant.law (hI : Invariant deps t) : StoreLaw deps t where
  committed_iff := by
    intro R
    constructor
    · rintro ⟨o, ho⟩
      obtain ⟨a, ha, hstate, -⟩ := (hI.object R o ho).attempt
      exact ⟨a, ha, hstate⟩
    · rintro ⟨a, ha, hstate⟩
      exact hI.attempt R a ha hstate
  stored_iff := by
    intro R
    constructor
    · rintro ⟨o, ho⟩
      have hrow := hI.object R o ho
      obtain ⟨j, hj, hout⟩ := hrow.journaled
      have hmem : j ∈ t.journalOf R := by
        rw [hj]
        exact List.mem_singleton_self j
      obtain ⟨hjournal, hresource⟩ := List.mem_filter.mp hmem
      refine ⟨j, ⟨hjournal, by simpa using hresource, by rw [hout]; exact hrow.isStored⟩, ?_⟩
      rintro j' ⟨hj', hR, -⟩
      exact eq_of_mem_journalOf hj hj' hR
    · rintro ⟨j, ⟨hj, rfl, hstored⟩, -⟩
      rcases hI.row j hj with h | h
      · exact h
      · exact absurd h.1 (not_isCleaned_of_isStored hstored)
  same_text := by
    intro R o a ho ha
    have hrow := hI.object R o ho
    obtain ⟨a', ha', -, hproposal⟩ := hrow.attempt
    obtain ⟨j, hj, hout⟩ := hrow.journaled
    rw [ha] at ha'
    cases ha'
    refine ⟨hproposal, ?_⟩
    intro j' hj' hR _
    rw [eq_of_mem_journalOf hj hj' hR, hout]
  length_le := hI.length_le
  receipts := List.pairwise_map.mpr (hI.distinct.imp fun h heq => h (Or.inl heq))
  leases := List.pairwise_map.mpr (hI.distinct.imp fun h heq => h (Or.inr (Or.inl heq)))
  sequences := List.pairwise_map.mpr (hI.distinct.imp fun h heq => h (Or.inr (Or.inr heq)))
  bodies := fun R o bytes ho hbody => (hI.object R o ho).agrees bytes hbody
  cleaned := by
    intro j hj hcleaned r hr R o ho hcapture
    rcases hI.row j hj with ⟨o', ho'⟩ | ⟨-, r', hr', -, hbare⟩
    · obtain ⟨j', hj', hout⟩ := (hI.object _ o' ho').journaled
      have hstored := (hI.object _ o' ho').isStored
      rw [← hout, ← eq_of_mem_journalOf hj' hj rfl] at hstored
      exact absurd hcleaned (not_isCleaned_of_isStored hstored)
    · apply hbare R o ho
      rw [hcapture]
      exact Request.captureId_of_resourceText (hr.symm.trans hr')

/-- The tables after some calls and reopenings of a store that starts with the empty schema. -/
def tablesAfter (deps : Deps) (es : List (Event Call)) : Tables :=
  (Trace.run (step (exec deps)) fresh es).durable

/-- **The store keeps its law** over every run, and what a run has stored, its continuations keep. -/
theorem storeLaw_of_calls (deps : Deps) (es : List (Event Call)) :
    StoreLaw deps (tablesAfter deps es) ∧
      ∀ fs, Later (tablesAfter deps es) (tablesAfter deps (es ++ fs)) := by
  have hI : Invariant deps (tablesAfter deps es) :=
    (invariant_and_later Invariant.empty (durable_run reaches_exec fresh es)).1
  refine ⟨hI.law, ?_⟩
  intro fs
  unfold tablesAfter
  rw [Trace.run_append]
  exact (invariant_and_later hI (durable_run reaches_exec _ fs)).2

end DiskArcana.Personal
