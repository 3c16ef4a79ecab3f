import DiskArcana.Personal.Backend

/-!
# What the transactions of the personal store do

`Change` says of each of the four transactions what the calls know of the tables when they begin it. From it:
objects, committed attempts and `disk_stored` rows of the journal go together and hold the same text, the
journal is bounded and its keys are distinct, bodies agree with their receipts, and a cleaned capture has
no bodies (`Invariant.change`). Later tables keep what earlier ones held, up to removed bodies, and a
capture with a tombstone gains no object (`Later`).
-/

namespace DiskArcana.Personal

open DiskArcana.Lib DiskArcana.Lib.Transactions DiskArcana.Accounts Relation

variable {deps : Deps} {t t' t'' : Tables} {e : NativeCommitContext} {r : Request}

/-! ## What the transactions do -/

@[simp] theorem insertCapture_attempts (cancelled : Option Text) :
    (insertCapture r cancelled t).attempts = t.attempts := by
  unfold insertCapture
  split <;> rfl

@[simp] theorem insertCapture_objects (cancelled : Option Text) :
    (insertCapture r cancelled t).objects = t.objects := by
  unfold insertCapture
  split <;> rfl

@[simp] theorem insertCapture_ownerJournal (cancelled : Option Text) :
    (insertCapture r cancelled t).ownerJournal = t.ownerJournal := by
  unfold insertCapture
  split <;> rfl

/-- Captures that are there stay as they are. -/
theorem lookup_insertCapture {cancelled : Option Text} {k : Text} {c : Capture}
    (h : t.captures.lookup k = some c) : (insertCapture r cancelled t).captures.lookup k = some c := by
  unfold insertCapture
  split
  case h_1 habsent =>
    rw [Table.lookup_insert_eq_ite, if_neg]
    · exact h
    · rintro rfl
      rw [habsent] at h
      cases h
  case h_2 => exact h

/-- A capture that is found is that of the request. -/
theorem capture_eq_some {cancelled : Option Text} (h : capture r t = .ok (some cancelled)) :
    t.captures.lookup r.captureId = some ⟨r.descriptorIdentity, cancelled⟩ := by
  unfold capture at h
  split at h
  case h_1 => cases h
  case h_2 c hc =>
    split_ifs at h with hd
    · cases h
      rw [hc, ← hd]

/-- A capture that passes is open. -/
theorem requireOpen_eq_ok (h : requireOpen r t = .ok ()) :
    t.captures.lookup r.captureId = some ⟨r.descriptorIdentity, none⟩ := by
  unfold requireOpen at h
  split at h
  case h_1 hc => exact capture_eq_some hc
  all_goals cases h

/-- An attempt is inserted where there was none. -/
theorem insertAttempt_eq_ok (h : insertAttempt e r t = .ok t') :
    t.attempts.lookup r.resourceIdentity = none ∧
      t' = { t with attempts :=
        t.attempts.insert r.resourceIdentity ⟨e.lease, e.proposal.registrationJson, .prepared⟩ } := by
  unfold insertAttempt at h
  split_ifs at h with hviolation
  · refine ⟨?_, (Except.ok.inj h).symm⟩
    apply Option.not_isSome_iff_eq_none.mp
    intro hsome
    exact hviolation (Or.inl hsome)

/-- An object is inserted where there was none. -/
theorem insertObject_eq_ok {o : Object} (h : insertObject r o t = .ok t') :
    t.objects.lookup r.resourceIdentity = none ∧
      t' = { t with objects := t.objects.insert r.resourceIdentity o } := by
  unfold insertObject at h
  split_ifs at h with hviolation
  · exact ⟨Option.not_isSome_iff_eq_none.mp hviolation, (Except.ok.inj h).symm⟩

/-- A journal row is appended with room, and clashes with none. -/
theorem journal_eq_ok (h : journal e r t = .ok t') :
    t.ownerJournal.length < maxJournal ∧ (∀ row ∈ t.ownerJournal, ¬ row.Clashes (journalRow e r)) ∧
      t' = { t with ownerJournal := t.ownerJournal ++ [journalRow e r] } := by
  unfold journal at h
  split_ifs at h with hfull hclash
  · refine ⟨Nat.lt_of_not_le hfull, ?_, (Except.ok.inj h).symm⟩
    intro row hrow hc
    exact hclash ⟨row, hrow, hc⟩

/-- The tables after `prepare`. -/
def prepared (e : NativeCommitContext) (r : Request) (t : Tables) : Tables :=
  { captures := (insertCapture r none t).captures
    attempts := t.attempts.insert r.resourceIdentity
      ⟨e.lease, e.proposal.registrationJson, .prepared⟩
    objects := t.objects
    ownerJournal := t.ownerJournal }

/-- What a preparation asks and does. -/
theorem prepare_eq_ok (h : prepare e r t = .ok t') :
    t.attempts.lookup r.resourceIdentity = none ∧ t' = prepared e r t := by
  unfold prepare at h
  obtain ⟨_, -, hattempt⟩ := bind_eq_ok.mp h
  obtain ⟨hnone, rfl⟩ := insertAttempt_eq_ok hattempt
  simp only [insertCapture_attempts] at hnone
  exact ⟨hnone, by simp [prepared]⟩

/-- The tables after `commit`. -/
def committed (e : NativeCommitContext) (r : Request) (receipt : Text) (bytes : Bytes) (t : Tables) :
    Tables :=
  { captures := t.captures
    attempts := t.attempts.insert r.resourceIdentity
      ⟨e.lease, e.proposal.registrationJson, .committed⟩
    objects := t.objects.insert r.resourceIdentity
      ⟨r.captureId, receipt, some bytes, e.proposal.registrationJson⟩
    ownerJournal := t.ownerJournal ++ [journalRow e r] }

/-- A row can be added to the journal. -/
structure HasRoom (e : NativeCommitContext) (r : Request) (t : Tables) : Prop where
  length_lt : t.ownerJournal.length < maxJournal
  not_clashes : ∀ row ∈ t.ownerJournal, ¬ row.Clashes (journalRow e r)

/-- What a commit asks and does. -/
theorem commit_eq_ok {receipt : Text} {bytes : Bytes} (h : commit e r receipt bytes t = .ok t')
    (hattempt : t.attempts.lookup r.resourceIdentity =
      some ⟨e.lease, e.proposal.registrationJson, .prepared⟩) :
    t.captures.lookup r.captureId = some ⟨r.descriptorIdentity, none⟩ ∧
      t.objects.lookup r.resourceIdentity = none ∧ HasRoom e r t ∧
      t' = committed e r receipt bytes t := by
  unfold commit at h
  obtain ⟨_, hopen, h⟩ := bind_eq_ok.mp h
  obtain ⟨t₁, hobject, h⟩ := bind_eq_ok.mp h
  obtain ⟨t₂, hjournal, h⟩ := bind_eq_ok.mp h
  obtain ⟨hnone, rfl⟩ := insertObject_eq_ok hobject
  obtain ⟨hlen, hclash, rfl⟩ := journal_eq_ok hjournal
  refine ⟨requireOpen_eq_ok hopen, hnone, ⟨hlen, hclash⟩, ?_⟩
  rw [← Except.ok.inj h]
  simp [commitAttempt, committed, hattempt]

/-- What a tombstone leaves. -/
theorem tombstone_eq_ok {c : CancelledResource} (h : tombstone r c t = .ok t') :
    t'.attempts = t.attempts ∧ t'.objects = t.objects ∧ t'.ownerJournal = t.ownerJournal ∧
      ∀ k row, t.captures.lookup k = some row → row.cancelled.isSome →
        t'.captures.lookup k = some row := by
  unfold tombstone at h
  split_ifs at h
  dsimp only at h
  split at h
  case h_1 => cases h
  case h_2 => cases h
  case h_3 hopen =>
    cases h
    refine ⟨by simp, by simp, by simp, ?_⟩
    intro k row hrow hcancelled
    have hkept : (insertCapture r (some c.toJson) t).captures.lookup k = some row :=
      lookup_insertCapture hrow
    rw [Table.lookup_insert_eq_ite, if_neg]
    · exact hkept
    · rintro rfl
      rw [capture_eq_some hopen] at hkept
      cases hkept
      cases hcancelled
  case h_4 =>
    split_ifs at h
    cases h
    refine ⟨by simp, by simp, by simp, ?_⟩
    intro k row hrow _
    exact lookup_insertCapture hrow

/-! ## Removing bodies -/

/-- Objects that another table holds as well, with the same body or none. -/
def Thins (a b : Table Text Object) : Prop :=
  (∀ R o, a.lookup R = some o →
    ∃ o', b.lookup R = some o' ∧ (o' = o ∨ o' = { o with body := none })) ∧
  ∀ R, a.lookup R = none → b.lookup R = none

theorem Thins.refl (a : Table Text Object) : Thins a a :=
  ⟨fun _ o h => ⟨o, h, Or.inl rfl⟩, fun _ h => h⟩

theorem Thins.trans {a b c : Table Text Object} (hab : Thins a b) (hbc : Thins b c) : Thins a c := by
  refine ⟨?_, fun R h => hbc.2 R (hab.2 R h)⟩
  intro R o h
  obtain ⟨o', ho', hb⟩ := hab.1 R o h
  obtain ⟨o'', ho'', hc⟩ := hbc.1 R o' ho'
  refine ⟨o'', ho'', ?_⟩
  rcases hb with rfl | rfl
  · exact hc
  · rcases hc with rfl | rfl
    · exact Or.inr rfl
    · exact Or.inr rfl

/-- Every object of the thinner table comes from one of the other. -/
theorem Thins.of_lookup {a b : Table Text Object} (h : Thins a b) {R : Text} {o' : Object}
    (ho' : b.lookup R = some o') :
    ∃ o, a.lookup R = some o ∧ (o' = o ∨ o' = { o with body := none }) := by
  rcases ha : a.lookup R with _ | o
  · rw [h.2 R ha] at ho'
    cases ho'
  · obtain ⟨o'', hb, hor⟩ := h.1 R o ha
    rw [ho'] at hb
    cases hb
    exact ⟨o, rfl, hor⟩

/-- Removing the body of an object thins the table. -/
theorem thins_removeBody (captureId : Text) (a : Table Text Object) (R : Text) :
    Thins a (removeBody captureId a R) := by
  unfold removeBody
  split
  case h_2 => exact .refl a
  case h_1 o ho =>
    split_ifs
    case neg => exact .refl a
    case pos =>
      constructor
      · intro R' o' ho'
        rw [Table.lookup_insert_eq_ite]
        split_ifs with hR
        · subst hR
          rw [ho] at ho'
          cases ho'
          exact ⟨_, rfl, Or.inr rfl⟩
        · exact ⟨o', ho', Or.inl rfl⟩
      · intro R' hR'
        rw [Table.lookup_insert_eq_ite, if_neg]
        · exact hR'
        · rintro rfl
          rw [ho] at hR'
          cases hR'

theorem thins_foldl (captureId : Text) (Rs : List Text) (a : Table Text Object) :
    Thins a (Rs.foldl (removeBody captureId) a) := by
  induction Rs generalizing a with
  | nil => exact .refl a
  | cons R Rs ih => exact (thins_removeBody captureId a R).trans (ih _)

/-- No object of a capture has a body. -/
def Bare (captureId : Text) (objects : Table Text Object) : Prop :=
  ∀ R o, objects.lookup R = some o → o.capture = captureId → o.body = none

/-- What a cleaning asks and does. -/
theorem clean_eq_ok (h : clean e r t = .ok t') :
    t'.captures = t.captures ∧ t'.attempts = t.attempts ∧ Thins t.objects t'.objects ∧
      Bare r.captureId t'.objects ∧ HasRoom e r t ∧
      t'.ownerJournal = t.ownerJournal ++ [journalRow e r] := by
  unfold clean at h
  dsimp only at h
  split_ifs at h with hleft
  obtain ⟨hlen, hclash, rfl⟩ := journal_eq_ok h
  refine ⟨rfl, rfl, thins_foldl _ _ _, ?_, ⟨hlen, hclash⟩, rfl⟩
  intro R o ho hcapture
  apply Option.not_isSome_iff_eq_none.mp
  intro hbody
  exact hleft ⟨⟨R, o⟩, Table.mem_entries_iff.mpr ho, hcapture, hbody⟩

/-! ## Changes -/

/-- What a single transaction does, with what the calls know of the tables when they begin it. -/
inductive Change (deps : Deps) : Tables → Tables → Prop
  | prepare {e : NativeCommitContext} {r : Request} {t t' : Tables}
      (hobject : t.objects.lookup r.resourceIdentity = none) (h : prepare e r t = .ok t') :
      Change deps t t'
  | commit {e : NativeCommitContext} {r : Request} {p : Part} {s : Stored} {receipt : Text}
      {bytes : Bytes} {t t' : Tables} (hproposal : e.proposal = .stored s) (hselected : r.selected = some p)
      (hreceipt : r.selectedReceiptJson = .ok receipt) (hbody : r.verifyBody deps bytes = .ok ())
      (hattempt : t.attempts.lookup r.resourceIdentity =
        some ⟨e.lease, e.proposal.registrationJson, .prepared⟩)
      (hjournal : t.journalOf r.resourceIdentity = []) (h : commit e r receipt bytes t = .ok t') :
      Change deps t t'
  | tombstone {r : Request} {c : CancelledResource} {t t' : Tables} (h : tombstone r c t = .ok t') :
      Change deps t t'
  | clean {e : NativeCommitContext} {r : Request} {s : Cleaned} {cancelled : Text} {t t' : Tables}
      (hproposal : e.proposal = .cleaned s) (hselected : r.selected = none)
      (hcancelled : capture r t = .ok (some (some cancelled))) (h : clean e r t = .ok t') :
      Change deps t t'

/-! ## The invariant -/

def IsStored (outcome : Text) : Prop := ∃ s, outcome = Outcome.registrationJson (.stored s)

def IsCleaned (outcome : Text) : Prop := ∃ s, outcome = Outcome.registrationJson (.cleaned s)

theorem not_isCleaned_of_isStored {outcome : Text} (h : IsStored outcome) : ¬ IsCleaned outcome := by
  rintro ⟨c, hc⟩
  obtain ⟨s, hs⟩ := h
  exact Outcome.registrationJson_stored_ne_cleaned s c (hs.symm.trans hc)

/-- A body has the length, the digest and the encoding that its receipt states. -/
def Agrees (deps : Deps) (receipt : Text) (bytes : Bytes) : Prop :=
  ∃ rec, deps.receiptFromSlice (utf8 receipt) = some rec ∧ bytes.length = rec.sizeBytes ∧
    deps.sha256 bytes = rec.sha256 ∧ (fromUtf8 bytes).isSome

/-- A body that is verified agrees with its receipt. -/
theorem agrees_of_verifyBody {receipt : Text} {bytes : Bytes} (hreceipt : r.selectedReceiptJson = .ok receipt)
    (hbody : r.verifyBody deps bytes = .ok ()) : Agrees deps receipt bytes := by
  unfold Request.verifyBody at hbody
  obtain ⟨expected, hselected, hbody⟩ := bind_eq_ok.mp hbody
  have hjson : receipt = expected.toJson := by
    rw [Request.selectedReceiptJson, hselected] at hreceipt
    exact (Except.ok.inj hreceipt).symm
  subst hjson
  split_ifs at hbody with hverify
  unfold CaptureDescriptor.verifyReceiptBytes at hverify
  split_ifs at hverify
  split at hverify
  case h_1 => cases hverify
  case h_2 rec hrec =>
    split at hverify
    case h_1 => cases hverify
    case h_2 p _ =>
      simp only [Bool.and_eq_true, decide_eq_true_eq] at hverify
      obtain ⟨⟨⟨⟨⟨⟨⟨⟨-, hsha⟩, hsize⟩, -⟩, -⟩, -⟩, hlen⟩, hdigest⟩, hutf⟩ := hverify
      exact ⟨rec, hrec, by rw [hlen, hsize], by rw [hdigest, hsha], hutf⟩

/-- A row of the journal about a cleaned capture. -/
def CleanedRow (t : Tables) (j : JournalRow) : Prop :=
  IsCleaned j.outcome ∧ ∃ r : Request, j.resource = r.resourceText none ∧
    (∃ c, t.captures.lookup r.captureId = some c ∧ c.cancelled.isSome) ∧ Bare r.captureId t.objects

/-- What is known of a row of `objects`. -/
structure ObjectRow (deps : Deps) (t : Tables) (R : Text) (o : Object) : Prop where
  attempt : ∃ a, t.attempts.lookup R = some a ∧ a.state = .committed ∧ a.proposal = o.outcome
  journaled : ∃ j, t.journalOf R = [j] ∧ j.outcome = o.outcome
  isStored : IsStored o.outcome
  resource : ∃ (r : Request) (p : Text), R = r.resourceText (some p) ∧ o.capture = r.captureId
  agrees : ∀ bytes, o.body = some bytes → Agrees deps o.receipt bytes

structure Invariant (deps : Deps) (t : Tables) : Prop where
  object : ∀ R o, t.objects.lookup R = some o → ObjectRow deps t R o
  attempt : ∀ R a, t.attempts.lookup R = some a → a.state = .committed → ∃ o, t.objects.lookup R = some o
  row : ∀ j ∈ t.ownerJournal, (∃ o, t.objects.lookup j.resource = some o) ∨ CleanedRow t j
  distinct : t.ownerJournal.Pairwise fun a b => ¬ a.Clashes b
  length_le : t.ownerJournal.length ≤ maxJournal

/-- The store begins in order. -/
theorem Invariant.empty : Invariant deps .empty where
  object := fun _ _ h => by cases h
  attempt := fun _ _ h => by cases h
  row := fun _ h => by cases h
  distinct := .nil
  length_le := Nat.zero_le _

/-- A row that clashes with none leaves the journal distinct. -/
theorem distinct_append {l : List JournalRow} (hl : l.Pairwise fun a b => ¬ a.Clashes b)
    {j : JournalRow} (hj : ∀ row ∈ l, ¬ row.Clashes j) :
    (l ++ [j]).Pairwise fun a b => ¬ a.Clashes b := by
  rw [List.pairwise_append]
  refine ⟨hl, List.pairwise_singleton _ _, ?_⟩
  intro row hrow j' hj'
  rw [List.mem_singleton.mp hj']
  exact hj row hrow

namespace Invariant

/-- A preparation keeps the invariant. -/
theorem prepare (hI : Invariant deps t) (hobject : t.objects.lookup r.resourceIdentity = none) :
    Invariant deps (prepared e r t) where
  object := by
    intro R o ho
    have hrow := hI.object R o ho
    have hR : R ≠ r.resourceIdentity := by
      rintro rfl
      rw [show t.objects.lookup r.resourceIdentity = some o from ho] at hobject
      cases hobject
    obtain ⟨a, ha, hstate⟩ := hrow.attempt
    exact { hrow with attempt := ⟨a, by rw [prepared, Table.lookup_insert_eq_ite, if_neg hR, ha], hstate⟩ }
  attempt := by
    intro R a ha hstate
    simp only [prepared, Table.lookup_insert_eq_ite] at ha
    split_ifs at ha
    · cases ha
      cases hstate
    · exact hI.attempt R a ha hstate
  row := by
    intro j hj
    refine (hI.row j hj).imp_right ?_
    rintro ⟨hcleaned, r', hresource, ⟨c, hc, hcancelled⟩, hbare⟩
    exact ⟨hcleaned, r', hresource, ⟨c, lookup_insertCapture hc, hcancelled⟩, hbare⟩
  distinct := hI.distinct
  length_le := hI.length_le

theorem journalOf_append (R : Text) (j : JournalRow) :
    Tables.journalOf { t with ownerJournal := t.ownerJournal ++ [j] } R =
      if j.resource = R then t.journalOf R ++ [j] else t.journalOf R := by
  unfold Tables.journalOf
  split_ifs with h <;> simp [h]

/-- A commit keeps the invariant. -/
theorem commit {p : Part} {s : Stored} {receipt : Text} {bytes : Bytes} (hI : Invariant deps t)
    (hproposal : e.proposal = .stored s) (hselected : r.selected = some p)
    (hagrees : Agrees deps receipt bytes) (hjournal : t.journalOf r.resourceIdentity = [])
    (hopen : t.captures.lookup r.captureId = some ⟨r.descriptorIdentity, none⟩)
    (hroom : HasRoom e r t) : Invariant deps (committed e r receipt bytes t) where
  object := by
    intro R o ho
    simp only [committed, Table.lookup_insert_eq_ite] at ho
    split_ifs at ho with hR
    · cases ho
      subst hR
      refine ⟨⟨_, by rw [committed, Table.lookup_insert_eq_ite, if_pos rfl], rfl, rfl⟩,
        ⟨journalRow e r, ?_, rfl⟩, ⟨s, by rw [hproposal]⟩,
        ⟨r, p.partId, by rw [Request.resourceIdentity, hselected]; rfl, rfl⟩, ?_⟩
      · have happend := journalOf_append (t := t) r.resourceIdentity (journalRow e r)
        rw [if_pos (show (journalRow e r).resource = r.resourceIdentity from rfl), hjournal] at happend
        exact happend
      · intro b hb
        cases hb
        exact hagrees
    · have hrow := hI.object R o ho
      obtain ⟨a, ha, hstate⟩ := hrow.attempt
      obtain ⟨j, hj, hout⟩ := hrow.journaled
      refine { hrow with
        attempt := ⟨a, by rw [committed, Table.lookup_insert_eq_ite, if_neg hR, ha], hstate⟩
        journaled := ⟨j, ?_, hout⟩ }
      have happend := journalOf_append (t := t) R (journalRow e r)
      rw [if_neg (fun h => hR h.symm), hj] at happend
      exact happend
  attempt := by
    intro R a ha hstate
    simp only [committed, Table.lookup_insert_eq_ite] at ha ⊢
    split_ifs at ha ⊢
    · exact ⟨_, rfl⟩
    · exact hI.attempt R a ha hstate
  row := by
    intro j hj
    simp only [committed, Table.lookup_insert_eq_ite]
    rcases List.mem_append.mp hj with hj | hj
    · split_ifs with hR
      · exact Or.inl ⟨_, rfl⟩
      · refine (hI.row j hj).imp_right ?_
        rintro ⟨hcleaned, r', hresource, ⟨c, hc, hcancelled⟩, hbare⟩
        refine ⟨hcleaned, r', hresource, ⟨c, hc, hcancelled⟩, ?_⟩
        intro R' o' ho' hcapture
        rw [Table.lookup_insert_eq_ite] at ho'
        split_ifs at ho'
        · cases ho'
          -- The capture of the new object is open, and that of the row is not.
          rw [← show r.captureId = r'.captureId from hcapture, hopen] at hc
          cases hc
          cases hcancelled
        · exact hbare R' o' ho' hcapture
    · rw [List.mem_singleton.mp hj]
      exact Or.inl ⟨_, if_pos rfl⟩
  distinct := distinct_append hI.distinct hroom.not_clashes
  length_le := by
    have hlt := hroom.length_lt
    simp only [committed, List.length_append, List.length_singleton]
    omega

/-- A tombstone keeps the invariant. -/
theorem tombstone (hI : Invariant deps t) (hattempts : t'.attempts = t.attempts)
    (hobjects : t'.objects = t.objects) (hjournal : t'.ownerJournal = t.ownerJournal)
    (hcaptures : ∀ k row, t.captures.lookup k = some row → row.cancelled.isSome →
      t'.captures.lookup k = some row) : Invariant deps t' where
  object := by
    intro R o ho
    rw [hobjects] at ho
    have hrow := hI.object R o ho
    exact { hrow with
      attempt := by rw [hattempts]; exact hrow.attempt
      journaled := by rw [Tables.journalOf, hjournal]; exact hrow.journaled }
  attempt := by
    rw [hattempts, hobjects]
    exact hI.attempt
  row := by
    intro j hj
    rw [hjournal] at hj
    rw [hobjects]
    refine (hI.row j hj).imp_right ?_
    rintro ⟨hcleaned, r', hresource, ⟨c, hc, hcancelled⟩, hbare⟩
    exact ⟨hcleaned, r', hresource, ⟨c, hcaptures _ _ hc hcancelled, hcancelled⟩, by rwa [hobjects]⟩
  distinct := by
    rw [hjournal]
    exact hI.distinct
  length_le := by
    rw [hjournal]
    exact hI.length_le

/-- A cleaning keeps the invariant. -/
theorem clean {s : Cleaned} {cancelled : Text} (hI : Invariant deps t)
    (hproposal : e.proposal = .cleaned s) (hselected : r.selected = none)
    (hcancelled : t.captures.lookup r.captureId = some ⟨r.descriptorIdentity, some cancelled⟩)
    (hcaptures : t'.captures = t.captures) (hattempts : t'.attempts = t.attempts)
    (hobjects : Thins t.objects t'.objects) (hbare : Bare r.captureId t'.objects)
    (hroom : HasRoom e r t) (hjournal : t'.ownerJournal = t.ownerJournal ++ [journalRow e r]) :
    Invariant deps t' := by
  have hresource : r.resourceIdentity = r.resourceText none := by
    rw [Request.resourceIdentity, hselected]
    rfl
  refine ⟨?_, ?_, ?_, ?_, ?_⟩
  · intro R o' ho'
    obtain ⟨o, ho, hor⟩ := hobjects.of_lookup ho'
    have hrow := hI.object R o ho
    have hjournalOf : t'.journalOf R = t.journalOf R := by
      have happend := journalOf_append (t := t) R (journalRow e r)
      rw [if_neg] at happend
      · rw [← happend, Tables.journalOf, hjournal]
        rfl
      · intro hR
        obtain ⟨r', p, hR', -⟩ := hrow.resource
        have hnone := (Request.resourceText_inj (hresource.symm.trans (hR.trans hR'))).2
        cases hnone
    rcases hor with rfl | rfl
    · exact { hrow with
        attempt := by rw [hattempts]; exact hrow.attempt
        journaled := by rw [hjournalOf]; exact hrow.journaled }
    · exact {
        attempt := by rw [hattempts]; exact hrow.attempt
        journaled := by rw [hjournalOf]; exact hrow.journaled
        isStored := hrow.isStored
        resource := hrow.resource
        agrees := fun _ h => by cases h }
  · intro R a ha hstate
    rw [hattempts] at ha
    obtain ⟨o, ho⟩ := hI.attempt R a ha hstate
    obtain ⟨o', ho', -⟩ := hobjects.1 R o ho
    exact ⟨o', ho'⟩
  · intro j hj
    rw [hjournal] at hj
    rcases List.mem_append.mp hj with hj | hj
    · rcases hI.row j hj with ⟨o, ho⟩ | ⟨hcleaned, r', hj', hc, hbare'⟩
      · obtain ⟨o', ho', -⟩ := hobjects.1 _ o ho
        exact Or.inl ⟨o', ho'⟩
      · refine Or.inr ⟨hcleaned, r', hj', by rwa [hcaptures], ?_⟩
        intro R o' ho' hcapture
        obtain ⟨o, ho, rfl | rfl⟩ := hobjects.of_lookup ho'
        · exact hbare' R _ ho hcapture
        · rfl
    · rw [List.mem_singleton.mp hj]
      refine Or.inr ⟨⟨s, by rw [journalRow, hproposal]⟩, r, hresource, ?_, hbare⟩
      exact ⟨_, by rw [hcaptures, hcancelled], rfl⟩
  · rw [hjournal]
    exact distinct_append hI.distinct hroom.not_clashes
  · have hlt := hroom.length_lt
    rw [hjournal, List.length_append, List.length_singleton]
    omega

/-- Every transaction keeps the invariant. -/
theorem change (hI : Invariant deps t) (h : Change deps t t') : Invariant deps t' := by
  cases h with
  | prepare hobject h =>
      obtain ⟨-, rfl⟩ := prepare_eq_ok h
      exact hI.prepare hobject
  | commit hproposal hselected hreceipt hbody hattempt hjournal h =>
      obtain ⟨hopen, -, hroom, rfl⟩ := commit_eq_ok h hattempt
      exact hI.commit hproposal hselected (agrees_of_verifyBody hreceipt hbody) hjournal hopen hroom
  | tombstone h =>
      obtain ⟨hattempts, hobjects, hjournal, hcaptures⟩ := tombstone_eq_ok h
      exact hI.tombstone hattempts hobjects hjournal hcaptures
  | clean hproposal hselected hcancelled h =>
      obtain ⟨hcaptures, hattempts, hobjects, hbare, hroom, hjournal⟩ := clean_eq_ok h
      exact hI.clean hproposal hselected (capture_eq_some hcancelled) hcaptures hattempts hobjects
        hbare hroom hjournal

end Invariant

/-! ## Later tables -/

/-- What later tables keep of earlier ones: the objects up to removed bodies, and the tombstones, under
which no object is added. -/
structure Later (t t' : Tables) : Prop where
  thins : ∀ R o, t.objects.lookup R = some o →
    ∃ o', t'.objects.lookup R = some o' ∧ (o' = o ∨ o' = { o with body := none })
  tombstone : ∀ k c, t.captures.lookup k = some c → c.cancelled.isSome → t'.captures.lookup k = some c
  closed : ∀ R o, t.objects.lookup R = none → t'.objects.lookup R = some o →
    ∀ c, t.captures.lookup o.capture = some c → c.cancelled = none

theorem Later.refl (t : Tables) : Later t t where
  thins := fun _ o h => ⟨o, h, Or.inl rfl⟩
  tombstone := fun _ _ h _ => h
  closed := fun R o h h' => by rw [h] at h'; cases h'

theorem Later.trans (h : Later t t') (h' : Later t' t'') : Later t t'' where
  thins := by
    intro R o ho
    obtain ⟨o', ho', hb⟩ := h.thins R o ho
    obtain ⟨o'', ho'', hc⟩ := h'.thins R o' ho'
    refine ⟨o'', ho'', ?_⟩
    rcases hb with rfl | rfl
    · exact hc
    · rcases hc with rfl | rfl <;> exact Or.inr rfl
  tombstone := fun k c hc hcancelled => h'.tombstone k c (h.tombstone k c hc hcancelled) hcancelled
  closed := by
    intro R o hnone ho c hc
    rcases hmid : t'.objects.lookup R with _ | o'
    · rcases hcancelled : c.cancelled with _ | cancelled
      · rfl
      · have hkept := h.tombstone _ c hc (by rw [hcancelled]; rfl)
        rw [← h'.closed R o hmid ho c hkept, hcancelled]
    · obtain ⟨o'', ho'', hor⟩ := h'.thins R o' hmid
      rw [ho] at ho''
      cases ho''
      apply h.closed R o' hnone hmid c
      rcases hor with rfl | rfl
      · exact hc
      · exact hc

/-- A change leads to later tables. -/
theorem later_change (h : Change deps t t') : Later t t' := by
  cases h with
  | prepare hobject h =>
      obtain ⟨-, rfl⟩ := prepare_eq_ok h
      refine ⟨fun R o h => ⟨o, h, Or.inl rfl⟩, fun k c h _ => lookup_insertCapture h, ?_⟩
      intro R o hnone ho
      rw [show (prepared _ _ t).objects = t.objects from rfl, hnone] at ho
      cases ho
  | commit hproposal hselected hreceipt hbody hattempt hjournal h =>
      obtain ⟨hopen, hobject, -, rfl⟩ := commit_eq_ok h hattempt
      refine ⟨?_, fun _ _ h _ => h, ?_⟩
      · intro R o ho
        refine ⟨o, ?_, Or.inl rfl⟩
        rw [committed, Table.lookup_insert_eq_ite, if_neg]
        · exact ho
        · rintro rfl
          rw [hobject] at ho
          cases ho
      · intro R o hnone ho c hc
        simp only [committed, Table.lookup_insert_eq_ite] at ho
        split_ifs at ho
        · cases ho
          rw [hopen] at hc
          cases hc
          rfl
        · rw [hnone] at ho
          cases ho
  | tombstone h =>
      obtain ⟨-, hobjects, -, hcaptures⟩ := tombstone_eq_ok h
      refine ⟨fun R o h => ⟨o, by rwa [hobjects], Or.inl rfl⟩, hcaptures, ?_⟩
      intro R o hnone ho
      rw [hobjects, hnone] at ho
      cases ho
  | clean hproposal hselected hcancelled h =>
      obtain ⟨hcaptures, -, hobjects, -⟩ := clean_eq_ok h
      refine ⟨hobjects.1, fun k c h _ => by rwa [hcaptures], ?_⟩
      intro R o hnone ho
      rw [hobjects.2 R hnone] at ho
      cases ho

/-- Tables that some transactions lead to. -/
abbrev Reaches (deps : Deps) : Tables → Tables → Prop := ReflTransGen (Change deps)

/-- **Along changes** the invariant holds, and the tables get later. -/
theorem invariant_and_later (hI : Invariant deps t) (h : Reaches deps t t') :
    Invariant deps t' ∧ Later t t' := by
  induction h with
  | refl => exact ⟨hI, .refl t⟩
  | tail _ hchange ih => exact ⟨ih.1.change hchange, ih.2.trans (later_change hchange)⟩

end DiskArcana.Personal
