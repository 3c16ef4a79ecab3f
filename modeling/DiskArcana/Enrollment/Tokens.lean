import DiskArcana.Lib.Trace
import DiskArcana.Enrollment.Service

/-!
# Enrollment tokens under concurrent calls

A token is meant for one certificate, for the node it was issued for, and for none once its revocation
has been answered with success. `enroll` looks the token up, lets the authority sign, and marks the
token consumed only at its end, without looking again; and it never compares the node of the request
with that of the token.

So the promise is kept along a run exactly when no call that gets a certificate has been raced since
it looked its token up, and every request names the node of its token (`tokenLaw_iff`).
-/

namespace DiskArcana.Enrollment

open DiskArcana.Core DiskArcana.Lib DiskArcana.Acl

/-! ## What a step means -/

/-- A call looks its token up and finds it good. -/
def Validates (s : EnrollState) (e : EnrollEvent) (id : ℕ) (t : TokenHash) : Prop :=
  ∃ answer call tenant, e = .proceed id answer ∧ answer.db = .ok () ∧
    s.calls.lookup id = some call ∧ call.phase = .arrived ∧ call.tokenHash = t ∧
    checkToken (s.db.pending.lookup t) call.nowMs = .ok tenant

/-- The authority issues a certificate for a call. -/
def Issues (s : EnrollState) (e : EnrollEvent) (id : ℕ) (call : EnrollCall) : Prop :=
  s.calls.lookup id = some call ∧
    ∃ answer cert tenant, e = .proceed id answer ∧ answer.ca = .ok cert ∧
      call.phase = .validated tenant

/-- A call of `revoke_pending` returns, and the token was revoked. -/
def RevokeReturns (s : EnrollState) (e : EnrollEvent) (t : TokenHash) : Prop :=
  ∃ id, e = .revokeReturn id ∧ s.revokes.lookup id = some ⟨t, true, false⟩

/-- Some call has a certificate for the token and has not marked the token consumed: it is on its
way there, or it failed on the way. -/
def Outstanding (s : EnrollState) (t : TokenHash) : Prop :=
  ∃ id call, s.calls.lookup id = some call ∧ call.tokenHash = t ∧ call.cert.isSome ∧
    call.phase ≠ .finished

/-- The node of the request is the node of the token. -/
def NamesNode (s : EnrollState) (call : EnrollCall) : Prop :=
  ∃ row, s.db.pending.lookup call.tokenHash = some row ∧ row.nodeIdHint = call.nodeIdHint

/-- What a step owes when it issues a certificate: it is the first for its token, no revocation of the
token has returned with success, and it is for the node the token was issued for. -/
structure TokenLaw (hist : List (EnrollState × EnrollEvent)) (s : EnrollState) (e : EnrollEvent) :
    Prop where
  single : ∀ id call, Issues s e id call → ∀ y ∈ hist, ∀ id' call', Issues y.1 y.2 id' call' →
    call'.tokenHash ≠ call.tokenHash
  unrevoked : ∀ id call, Issues s e id call → ∀ y ∈ hist, ¬ RevokeReturns y.1 y.2 call.tokenHash
  node : ∀ id call, Issues s e id call → NamesNode s call

/-- A call that gets a certificate was not raced. When it looked its token up, no call with a
certificate for the token still had to mark it consumed; since then no other call got one, and no
revocation of the token has returned with success. And the request names the token's node. -/
structure Unraced (hist : List (EnrollState × EnrollEvent)) (s : EnrollState) (e : EnrollEvent) :
    Prop where
  marked : ∀ id call, Issues s e id call → ∀ pre x post, hist = pre ++ x :: post →
    Validates x.1 x.2 id call.tokenHash → ¬ Outstanding x.1 call.tokenHash
  alone : ∀ id call, Issues s e id call → ∀ pre x post, hist = pre ++ x :: post →
    Validates x.1 x.2 id call.tokenHash → ∀ y ∈ post, ∀ id' call', Issues y.1 y.2 id' call' →
      call'.tokenHash ≠ call.tokenHash
  unrevoked : ∀ id call, Issues s e id call → ∀ pre x post, hist = pre ++ x :: post →
    Validates x.1 x.2 id call.tokenHash → ∀ y ∈ post, ¬ RevokeReturns y.1 y.2 call.tokenHash
  node : ∀ id call, Issues s e id call → NamesNode s call

/-! ## The tables only grow -/

/-- The row of a token is consumed. -/
def Consumed (d : EnrollDb) (t : TokenHash) : Prop :=
  ∃ row, d.pending.lookup t = some row ∧ row.consumedAt.isSome

/-- The row of a token is revoked. -/
def Revoked (d : EnrollDb) (t : TokenHash) : Prop :=
  ∃ row, d.pending.lookup t = some row ∧ row.revokedAt.isSome

/-- Rows stay, and so do their marks. -/
structure Grows (d d' : EnrollDb) : Prop where
  known : ∀ t, (d.pending.lookup t).isSome → (d'.pending.lookup t).isSome
  consumed : ∀ t, Consumed d t → Consumed d' t
  revoked : ∀ t, Revoked d t → Revoked d' t

theorem Grows.of_eq {d d' : EnrollDb} (h : d'.pending = d.pending) : Grows d d' := by
  refine ⟨fun t => ?_, fun t => ?_, fun t => ?_⟩
  · rw [h]
    exact fun h => h
  · unfold Consumed
    rw [h]
    exact fun h => h
  · unfold Revoked
    rw [h]
    exact fun h => h

/-- A row is replaced by one with at least its marks. -/
theorem Grows.of_insert {d d' : EnrollDb} {t : TokenHash} {row' : PendingEnrollment}
    (h : d'.pending = d.pending.insert t row')
    (hmarks : ∀ row, d.pending.lookup t = some row →
      (row.consumedAt.isSome → row'.consumedAt.isSome) ∧
        (row.revokedAt.isSome → row'.revokedAt.isSome)) : Grows d d' := by
  refine ⟨?_, ?_, ?_⟩
  · intro u hu
    rw [h, Table.lookup_insert_eq_ite]
    split
    · rfl
    · exact hu
  · rintro u ⟨row, hrow, hmark⟩
    unfold Consumed
    rw [h, Table.lookup_insert_eq_ite]
    split
    · rename_i heq
      subst heq
      exact ⟨row', rfl, (hmarks row hrow).1 hmark⟩
    · exact ⟨row, hrow, hmark⟩
  · rintro u ⟨row, hrow, hmark⟩
    unfold Revoked
    rw [h, Table.lookup_insert_eq_ite]
    split
    · rename_i heq
      subst heq
      exact ⟨row', rfl, (hmarks row hrow).2 hmark⟩
    · exact ⟨row, hrow, hmark⟩

theorem grows_issuePendingToken (d : EnrollDb) (t : TokenHash) (nodeIdHint : String)
    (ttlSeconds nowMs : ℕ) (tenant : Option String) :
    Grows d (issuePendingToken d t nodeIdHint ttlSeconds nowMs tenant) := by
  unfold issuePendingToken
  dsimp only
  split
  · exact Grows.of_eq rfl
  · rename_i hnone
    refine Grows.of_insert rfl ?_
    intro row hrow
    exact nomatch hnone.symm.trans hrow

theorem grows_revokePending (d : EnrollDb) (t : TokenHash) (nowMs : ℕ) :
    Grows d (revokePending d t nowMs).2 := by
  unfold revokePending
  split
  · rename_i row hrow
    split
    · refine Grows.of_insert rfl ?_
      intro row' hrow'
      cases hrow.symm.trans hrow'
      exact ⟨fun h => h, fun _ => rfl⟩
    · exact Grows.of_eq rfl
  · exact Grows.of_eq rfl

/-- A revocation that says so leaves the token revoked. -/
theorem revoked_revokePending {d : EnrollDb} {t : TokenHash} {nowMs : ℕ}
    (h : (revokePending d t nowMs).1 = true) : Revoked (revokePending d t nowMs).2 t := by
  unfold revokePending at h ⊢
  split at h
  · rename_i row hrow
    split at h
    · rename_i hfree
      rw [if_pos hfree]
      exact ⟨_, AList.lookup_insert _, rfl⟩
    · exact nomatch h
  · exact nomatch h

theorem grows_consumeToken (d : EnrollDb) (t : TokenHash) (nowMs : ℕ) (certFp : CertFingerprint) :
    Grows d (consumeToken d t nowMs certFp) := by
  unfold consumeToken
  split
  · rename_i row hrow
    refine Grows.of_insert rfl ?_
    intro row' hrow'
    cases hrow.symm.trans hrow'
    exact ⟨fun _ => rfl, fun h => h⟩
  · exact Grows.of_eq rfl

theorem consumed_consumeToken {d : EnrollDb} {t : TokenHash} (h : (d.pending.lookup t).isSome)
    (nowMs : ℕ) (certFp : CertFingerprint) : Consumed (consumeToken d t nowMs certFp) t := by
  obtain ⟨row, hrow⟩ := Option.isSome_iff_exists.mp h
  unfold consumeToken
  rw [hrow]
  exact ⟨_, AList.lookup_insert _, rfl⟩

/-- A token that passes its check has a row without marks. -/
theorem of_checkToken {d : EnrollDb} {t : TokenHash} {nowMs : ℕ} {tenant : Option String}
    (h : checkToken (d.pending.lookup t) nowMs = .ok tenant) :
    (d.pending.lookup t).isSome ∧ ¬ Consumed d t ∧ ¬ Revoked d t := by
  unfold checkToken at h
  split at h
  · exact nomatch h
  · rename_i row hrow
    split_ifs at h with hrevoked hconsumed
    refine ⟨by rw [hrow]; rfl, ?_, ?_⟩
    · rintro ⟨row', hrow', hmark⟩
      cases hrow.symm.trans hrow'
      exact hconsumed hmark
    · rintro ⟨row', hrow', hmark⟩
      cases hrow.symm.trans hrow'
      exact hrevoked hmark

section

variable (fingerprintFromPem : Bytes → Except String CertFingerprint)

/-! ## One step of a call -/

/-- The call has found its token good, and has not failed. -/
def EnrollPhase.Past : EnrollPhase → Prop
  | .arrived => False
  | .failed _ => False
  | _ => True

@[simp] theorem insertNode_pending (d : EnrollDb) (tenant : Option String) (nodeId : String)
    (nowMs : ℕ) : (insertNode d tenant nodeId nowMs).pending = d.pending := by
  unfold insertNode
  split <;> rfl

@[simp] theorem bindTenant_pending (d : EnrollDb) (tenant nodeId : String) :
    (bindTenant d tenant nodeId).pending = d.pending := by
  unfold bindTenant
  split <;> rfl

/-- A step between two of the landmarks: the tokens and the certificate stay, and no landmark is
reached. -/
structure Carries (d d' : EnrollDb) (call call' : EnrollCall) : Prop where
  pending : d'.pending = d.pending
  cert : call'.cert = call.cert
  validated : ∀ tenant, call'.phase ≠ .validated tenant
  finished : call'.phase = .finished → call.phase = .finished
  past : call'.phase.Past → call.phase.Past

/-- A call that fails carries on what it had. -/
theorem carries_failed (d : EnrollDb) (call : EnrollCall) (message : String) :
    Carries d d call { call with phase := .failed message } :=
  ⟨rfl, rfl, fun _ => nofun, nofun, False.elim⟩

/-- The step of a call validates its token, asks the authority with success, marks the token consumed,
or is none of these landmarks. -/
theorem stepCall_cases (d : EnrollDb) (answer : StepAnswer) (call : EnrollCall) :
    (call.phase = .arrived ∧ answer.db = .ok () ∧
        ∃ tenant, checkToken (d.pending.lookup call.tokenHash) call.nowMs = .ok tenant ∧
          stepCall fingerprintFromPem d answer call = (d, { call with phase := .validated tenant })) ∨
      (∃ tenant cert phase, call.phase = .validated tenant ∧ answer.ca = .ok cert ∧
        (∀ tenant, phase ≠ .validated tenant) ∧ phase ≠ .finished ∧
        stepCall fingerprintFromPem d answer call =
          (d, { call with cert := some cert, phase := phase })) ∨
      (∃ certFp, call.phase = .recorded certFp ∧
        stepCall fingerprintFromPem d answer call =
          (consumeToken d call.tokenHash call.nowMs certFp, { call with phase := .finished })) ∨
      ((∀ tenant cert, call.phase = .validated tenant → answer.ca ≠ .ok cert) ∧
        Carries d (stepCall fingerprintFromPem d answer call).1 call
          (stepCall fingerprintFromPem d answer call).2) := by
  cases hphase : call.phase with
  | arrived =>
      simp only [stepCall, hphase]
      cases hdb : answer.db with
      | error e => exact Or.inr (Or.inr (Or.inr ⟨nofun, carries_failed d call _⟩))
      | ok u =>
          cases hcheck : checkToken (d.pending.lookup call.tokenHash) call.nowMs with
          | error e => exact Or.inr (Or.inr (Or.inr ⟨nofun, carries_failed d call _⟩))
          | ok tenant => exact Or.inl ⟨trivial, rfl, tenant, rfl, rfl⟩
  | validated tenant =>
      simp only [stepCall, hphase, stepSign]
      cases hca : answer.ca with
      | error e => exact Or.inr (Or.inr (Or.inr ⟨fun _ _ _ => nofun, carries_failed d call _⟩))
      | ok cert =>
          cases hfp : fingerprintFromPem cert.clientCertPem with
          | error e =>
              refine Or.inr (Or.inl ⟨tenant, cert, .failed s!"cert fingerprint: {e}", rfl, rfl, ?_⟩)
              exact ⟨fun _ => nofun, nofun, by simp only [hfp]⟩
          | ok certFp =>
              refine Or.inr (Or.inl ⟨tenant, cert, .signed tenant certFp, rfl, rfl, ?_⟩)
              exact ⟨fun _ => nofun, nofun, by simp only [hfp]⟩
  | signed tenant certFp =>
      refine Or.inr (Or.inr (Or.inr ⟨nofun, ?_⟩))
      simp only [stepCall, hphase]
      cases answer.db with
      | error e => exact carries_failed d call _
      | ok u =>
          cases tenant with
          | none => exact ⟨by simp, rfl, fun _ => nofun, nofun, fun _ => by rw [hphase]; trivial⟩
          | some tenant => exact ⟨by simp, rfl, fun _ => nofun, nofun, fun _ => by rw [hphase]; trivial⟩
  | inserted tenant certFp =>
      refine Or.inr (Or.inr (Or.inr ⟨nofun, ?_⟩))
      simp only [stepCall, hphase]
      cases answer.db with
      | error e => exact carries_failed d call _
      | ok u => exact ⟨by simp, rfl, fun _ => nofun, nofun, fun _ => by rw [hphase]; trivial⟩
  | bound certFp =>
      refine Or.inr (Or.inr (Or.inr ⟨nofun, ?_⟩))
      simp only [stepCall, hphase]
      cases answer.db with
      | error e => exact carries_failed d call _
      | ok u =>
          cases d.nodes.lookup call.nodeIdHint with
          | none => exact carries_failed d call _
          | some row => exact ⟨rfl, rfl, fun _ => nofun, nofun, fun _ => by rw [hphase]; trivial⟩
  | located certFp nodeRow =>
      refine Or.inr (Or.inr (Or.inr ⟨nofun, ?_⟩))
      simp only [stepCall, hphase]
      cases answer.db with
      | error e => exact carries_failed d call _
      | ok u =>
          cases d.nodeCerts.lookup certFp with
          | none => exact ⟨rfl, rfl, fun _ => nofun, nofun, fun _ => by rw [hphase]; trivial⟩
          | some row => exact carries_failed d call _
  | recorded certFp =>
      simp only [stepCall, hphase]
      cases answer.db with
      | error e => exact Or.inr (Or.inr (Or.inr ⟨nofun, carries_failed d call _⟩))
      | ok u => exact Or.inr (Or.inr (Or.inl ⟨certFp, rfl, rfl⟩))
  | finished =>
      refine Or.inr (Or.inr (Or.inr ⟨nofun, ?_⟩))
      simp only [stepCall, hphase]
      exact ⟨rfl, rfl, fun _ => by rw [hphase]; exact nofun, fun _ => hphase, fun h => h⟩
  | failed message =>
      refine Or.inr (Or.inr (Or.inr ⟨nofun, ?_⟩))
      simp only [stepCall, hphase]
      exact ⟨rfl, rfl, fun _ => by rw [hphase]; exact nofun, fun h => h, fun h => h⟩

theorem grows_stepCall (d : EnrollDb) (answer : StepAnswer) (call : EnrollCall) :
    Grows d (stepCall fingerprintFromPem d answer call).1 := by
  obtain ⟨-, -, tenant, -, heq⟩ | ⟨tenant, cert, phase, -, -, -, -, heq⟩ | ⟨certFp, -, heq⟩ |
    ⟨-, hcarries⟩ := stepCall_cases fingerprintFromPem d answer call
  · rw [heq]
    exact Grows.of_eq rfl
  · rw [heq]
    exact Grows.of_eq rfl
  · rw [heq]
    exact grows_consumeToken _ _ _ _
  · exact Grows.of_eq hcarries.pending

theorem stepCall_tokenHash (d : EnrollDb) (answer : StepAnswer) (call : EnrollCall) :
    (stepCall fingerprintFromPem d answer call).2.tokenHash = call.tokenHash := by
  unfold stepCall stepSign
  repeat' split
  all_goals rfl

/-! ## One step of the service -/

theorem grows_enrollStep (s : EnrollState) (e : EnrollEvent) :
    Grows s.db (enrollStep fingerprintFromPem s e).db := by
  cases e with
  | issue t nodeIdHint ttlSeconds nowMs tenant => exact grows_issuePendingToken _ _ _ _ _ _
  | arrive id t csrPem nodeIdHint nowMs =>
      simp only [enrollStep]
      split <;> exact Grows.of_eq rfl
  | proceed id answer =>
      simp only [enrollStep]
      split
      · exact Grows.of_eq rfl
      · exact grows_stepCall _ _ _ _
  | revoke id t nowMs =>
      simp only [enrollStep]
      split
      · exact Grows.of_eq rfl
      · exact grows_revokePending _ _ _
  | revokeReturn id =>
      simp only [enrollStep]
      split <;> exact Grows.of_eq rfl

/-- A call after a step: it is as it was, it has just arrived, or it made its next step. -/
theorem calls_enrollStep {s : EnrollState} {e : EnrollEvent} {id : ℕ} {call' : EnrollCall}
    (h : (enrollStep fingerprintFromPem s e).calls.lookup id = some call') :
    s.calls.lookup id = some call' ∨ (call'.phase = .arrived ∧ call'.cert = none) ∨
      ∃ answer call, e = .proceed id answer ∧ s.calls.lookup id = some call ∧
        (enrollStep fingerprintFromPem s e).db = (stepCall fingerprintFromPem s.db answer call).1 ∧
        call' = (stepCall fingerprintFromPem s.db answer call).2 := by
  cases e with
  | issue t nodeIdHint ttlSeconds nowMs tenant => exact Or.inl h
  | arrive id' t csrPem nodeIdHint nowMs =>
      simp only [enrollStep] at h
      split at h
      · exact Or.inl h
      · rw [Table.lookup_insert_eq_ite] at h
        split at h
        · cases h
          exact Or.inr (Or.inl ⟨rfl, rfl⟩)
        · exact Or.inl h
  | proceed id' answer =>
      cases hcall : s.calls.lookup id' with
      | none =>
          simp only [enrollStep, hcall] at h
          exact Or.inl h
      | some call =>
          simp only [enrollStep, hcall] at h ⊢
          rw [Table.lookup_insert_eq_ite] at h
          split at h
          · rename_i heq
            cases h
            subst heq
            exact Or.inr (Or.inr ⟨answer, call, rfl, hcall, rfl, rfl⟩)
          · exact Or.inl h
  | revoke id' t nowMs =>
      simp only [enrollStep] at h
      split at h <;> exact Or.inl h
  | revokeReturn id' =>
      simp only [enrollStep] at h
      split at h <;> exact Or.inl h

/-- A call is never forgotten, and keeps its token and its certificate. -/
theorem exists_calls_enrollStep {s : EnrollState} {id : ℕ} {call : EnrollCall} (e : EnrollEvent)
    (h : s.calls.lookup id = some call) :
    ∃ call', (enrollStep fingerprintFromPem s e).calls.lookup id = some call' ∧
      call'.tokenHash = call.tokenHash ∧ (call.cert.isSome → call'.cert.isSome) := by
  have hsame : ∃ call', s.calls.lookup id = some call' ∧ call'.tokenHash = call.tokenHash ∧
      (call.cert.isSome → call'.cert.isSome) := ⟨call, h, rfl, fun h => h⟩
  cases e with
  | issue t nodeIdHint ttlSeconds nowMs tenant => exact hsame
  | arrive id' t csrPem nodeIdHint nowMs =>
      simp only [enrollStep]
      split
      · exact hsame
      · rename_i hnone
        rw [Table.lookup_insert_eq_ite]
        split
        · rename_i heq
          rw [heq, hnone] at h
          exact nomatch h
        · exact hsame
  | proceed id' answer =>
      simp only [enrollStep]
      split
      · exact hsame
      · rename_i call₁ hcall₁
        rw [Table.lookup_insert_eq_ite]
        split
        · rename_i heq
          rw [heq, hcall₁] at h
          cases h
          refine ⟨_, rfl, stepCall_tokenHash _ _ _ _, fun hcert => ?_⟩
          obtain ⟨-, -, tenant, -, hstep⟩ | ⟨tenant, cert, phase, -, -, -, -, hstep⟩ |
            ⟨certFp, -, hstep⟩ | ⟨-, hcarries⟩ := stepCall_cases fingerprintFromPem s.db answer call
          · rw [hstep]
            exact hcert
          · rw [hstep]
            rfl
          · rw [hstep]
            exact hcert
          · rw [hcarries.cert]
            exact hcert
        · exact hsame
  | revoke id' t nowMs =>
      simp only [enrollStep]
      split <;> exact hsame
  | revokeReturn id' =>
      simp only [enrollStep]
      split <;> exact hsame

/-- A call that is issued a certificate has it. -/
theorem cert_of_issues {s : EnrollState} {e : EnrollEvent} {id : ℕ} {call : EnrollCall}
    (h : Issues s e id call) :
    ∃ call', (enrollStep fingerprintFromPem s e).calls.lookup id = some call' ∧
      call'.tokenHash = call.tokenHash ∧ call'.cert.isSome := by
  obtain ⟨hcall, answer, cert, tenant, rfl, hca, hphase⟩ := h
  simp only [enrollStep, hcall]
  refine ⟨_, AList.lookup_insert _, stepCall_tokenHash _ _ _ _, ?_⟩
  simp only [stepCall, hphase, stepSign, hca]
  split <;> rfl

/-! ## Runs -/

variable {fingerprintFromPem} {hist : List (EnrollState × EnrollEvent)} {s : EnrollState}
  {e : EnrollEvent}

/-- What holds along every run. -/
structure TokenInv (hist : List (EnrollState × EnrollEvent)) (s : EnrollState) : Prop where
  known : ∀ id call, s.calls.lookup id = some call → call.phase.Past →
    (s.db.pending.lookup call.tokenHash).isSome
  validated : ∀ id call tenant, s.calls.lookup id = some call → call.phase = .validated tenant →
    ∃ x ∈ hist, Validates x.1 x.2 id call.tokenHash
  finished : ∀ id call, s.calls.lookup id = some call → call.phase = .finished →
    Consumed s.db call.tokenHash
  issued : ∀ y ∈ hist, ∀ id call, Issues y.1 y.2 id call →
    ∃ call', s.calls.lookup id = some call' ∧ call'.tokenHash = call.tokenHash ∧ call'.cert.isSome
  cert : ∀ id call, s.calls.lookup id = some call → call.cert.isSome →
    ∃ y ∈ hist, ∃ call', Issues y.1 y.2 id call' ∧ call'.tokenHash = call.tokenHash
  revoked : ∀ id call, s.revokes.lookup id = some call → call.revoked = true →
    Revoked s.db call.tokenHash
  returned : ∀ y ∈ hist, ∀ t, RevokeReturns y.1 y.2 t → Revoked s.db t

theorem tokenInv_noCalls (d : EnrollDb) : TokenInv [] (noCalls d) := by
  have hcalls : ∀ id, (noCalls d).calls.lookup id = none := fun _ => rfl
  have hrevokes : ∀ id, (noCalls d).revokes.lookup id = none := fun _ => rfl
  refine ⟨?_, ?_, ?_, ?_, ?_, ?_, ?_⟩
  · intro id call h
    exact nomatch (hcalls id).symm.trans h
  · intro id call tenant h
    exact nomatch (hcalls id).symm.trans h
  · intro id call h
    exact nomatch (hcalls id).symm.trans h
  · intro y hy
    exact nomatch hy
  · intro id call h
    exact nomatch (hcalls id).symm.trans h
  · intro id call h
    exact nomatch (hrevokes id).symm.trans h
  · intro y hy
    exact nomatch hy

/-- The calls of `revoke_pending` after a step. -/
theorem revokes_enrollStep {id : ℕ} {call : RevokeCall}
    (h : (enrollStep fingerprintFromPem s e).revokes.lookup id = some call)
    (hrevoked : call.revoked = true) :
    (∃ call', s.revokes.lookup id = some call' ∧ call'.tokenHash = call.tokenHash ∧
        call'.revoked = true) ∨
      Revoked (enrollStep fingerprintFromPem s e).db call.tokenHash := by
  cases e with
  | issue t nodeIdHint ttlSeconds nowMs tenant => exact Or.inl ⟨call, h, rfl, hrevoked⟩
  | arrive id' t csrPem nodeIdHint nowMs =>
      simp only [enrollStep] at h
      split at h <;> exact Or.inl ⟨call, h, rfl, hrevoked⟩
  | proceed id' answer =>
      simp only [enrollStep] at h
      split at h <;> exact Or.inl ⟨call, h, rfl, hrevoked⟩
  | revoke id' t nowMs =>
      simp only [enrollStep] at h ⊢
      split at h
      · exact Or.inl ⟨call, h, rfl, hrevoked⟩
      · rw [Table.lookup_insert_eq_ite] at h
        split at h
        · cases h
          exact Or.inr (revoked_revokePending hrevoked)
        · exact Or.inl ⟨call, h, rfl, hrevoked⟩
  | revokeReturn id' =>
      simp only [enrollStep] at h
      split at h
      · rename_i call' hcall'
        rw [Table.lookup_insert_eq_ite] at h
        split at h
        · rename_i heq
          cases h
          exact Or.inl ⟨call', heq ▸ hcall', rfl, hrevoked⟩
        · exact Or.inl ⟨call, h, rfl, hrevoked⟩
      · exact Or.inl ⟨call, h, rfl, hrevoked⟩

section

variable {call : EnrollCall} {id : ℕ}
  (hcall : (enrollStep fingerprintFromPem s e).calls.lookup id = some call)

include hcall

/-- A call that has got past the lookup has a token that is stored. -/
theorem TokenInv.known_step (h : TokenInv hist s) (hpast : call.phase.Past) :
    ((enrollStep fingerprintFromPem s e).db.pending.lookup call.tokenHash).isSome := by
  have hgrows := grows_enrollStep fingerprintFromPem s e
  obtain hold | ⟨hphase, -⟩ | ⟨answer, call₁, rfl, hcall₁, -, rfl⟩ := calls_enrollStep _ hcall
  · exact hgrows.known _ (h.known id call hold hpast)
  · rw [hphase] at hpast
    exact hpast.elim
  · apply hgrows.known
    rw [stepCall_tokenHash]
    obtain ⟨-, -, tenant, hcheck, -⟩ | ⟨tenant, cert, phase, hphase, -⟩ | ⟨certFp, hphase, -⟩ |
      ⟨-, hcarries⟩ := stepCall_cases fingerprintFromPem s.db answer call₁
    · exact (of_checkToken hcheck).1
    · exact h.known id call₁ hcall₁ (by rw [hphase]; trivial)
    · exact h.known id call₁ hcall₁ (by rw [hphase]; trivial)
    · exact h.known id call₁ hcall₁ (hcarries.past hpast)

/-- A call that has been validated was so at some moment. -/
theorem TokenInv.validated_step (h : TokenInv hist s) {tenant : Option String}
    (hphase : call.phase = .validated tenant) :
    ∃ x ∈ hist ++ [(s, e)], Validates x.1 x.2 id call.tokenHash := by
  obtain hold | ⟨harrived, -⟩ | ⟨answer, call₁, rfl, hcall₁, -, rfl⟩ := calls_enrollStep _ hcall
  · obtain ⟨x, hx, hvalidates⟩ := h.validated id call tenant hold hphase
    exact ⟨x, List.mem_append_left _ hx, hvalidates⟩
  · exact nomatch harrived.symm.trans hphase
  · obtain ⟨harrived, hdb, tenant', hcheck, hstep⟩ | ⟨_, cert, phase, -, -, hno, -, hstep⟩ |
      ⟨certFp, -, hstep⟩ | ⟨-, hcarries⟩ := stepCall_cases fingerprintFromPem s.db answer call₁
    · rw [stepCall_tokenHash]
      exact ⟨_, List.mem_concat_self, answer, call₁, tenant', rfl, hdb, hcall₁, harrived, rfl, hcheck⟩
    · rw [hstep] at hphase
      exact absurd hphase (hno tenant)
    · rw [hstep] at hphase
      exact nomatch hphase
    · exact absurd hphase (hcarries.validated tenant)

/-- A call that has finished has consumed its token. -/
theorem TokenInv.finished_step (h : TokenInv hist s) (hphase : call.phase = .finished) :
    Consumed (enrollStep fingerprintFromPem s e).db call.tokenHash := by
  have hgrows := grows_enrollStep fingerprintFromPem s e
  obtain hold | ⟨harrived, -⟩ | ⟨answer, call₁, rfl, hcall₁, hdb, rfl⟩ := calls_enrollStep _ hcall
  · exact hgrows.consumed _ (h.finished id call hold hphase)
  · exact nomatch harrived.symm.trans hphase
  · obtain ⟨-, -, tenant, -, hstep⟩ | ⟨_, cert, phase, -, -, -, hno, hstep⟩ |
      ⟨certFp, hrecorded, hstep⟩ | ⟨-, hcarries⟩ :=
        stepCall_cases fingerprintFromPem s.db answer call₁
    · rw [hstep] at hphase
      exact nomatch hphase
    · rw [hstep] at hphase
      exact absurd hphase hno
    · rw [hdb, hstep]
      apply consumed_consumeToken
      exact h.known id call₁ hcall₁ (by rw [hrecorded]; trivial)
    · apply hgrows.consumed
      rw [stepCall_tokenHash]
      exact h.finished id call₁ hcall₁ (hcarries.finished hphase)

/-- A call with a certificate was given it at some moment. -/
theorem TokenInv.cert_step (h : TokenInv hist s) (hcert : call.cert.isSome) :
    ∃ y ∈ hist ++ [(s, e)], ∃ call', Issues y.1 y.2 id call' ∧ call'.tokenHash = call.tokenHash := by
  have hearlier : ∀ call₁ : EnrollCall, s.calls.lookup id = some call₁ → call₁.cert.isSome →
      ∃ y ∈ hist ++ [(s, e)], ∃ call', Issues y.1 y.2 id call' ∧
        call'.tokenHash = call₁.tokenHash := by
    intro call₁ hcall₁ hcert₁
    obtain ⟨y, hy, hissues⟩ := h.cert id call₁ hcall₁ hcert₁
    exact ⟨y, List.mem_append_left _ hy, hissues⟩
  obtain hold | ⟨-, hnone⟩ | ⟨answer, call₁, rfl, hcall₁, -, rfl⟩ := calls_enrollStep _ hcall
  · exact hearlier call hold hcert
  · rw [hnone] at hcert
    exact nomatch hcert
  · rw [stepCall_tokenHash]
    obtain ⟨-, -, tenant, -, hstep⟩ | ⟨tenant, cert, phase, hphase, hca, -⟩ | ⟨certFp, -, hstep⟩ |
      ⟨-, hcarries⟩ := stepCall_cases fingerprintFromPem s.db answer call₁
    · rw [hstep] at hcert
      exact hearlier call₁ hcall₁ hcert
    · exact ⟨_, List.mem_concat_self, call₁, ⟨hcall₁, answer, cert, tenant, rfl, hca, hphase⟩, rfl⟩
    · rw [hstep] at hcert
      exact hearlier call₁ hcall₁ hcert
    · rw [hcarries.cert] at hcert
      exact hearlier call₁ hcall₁ hcert

end

/-- A certificate that was issued is in its call. -/
theorem TokenInv.issued_step (h : TokenInv hist s) {y : EnrollState × EnrollEvent}
    (hy : y ∈ hist ++ [(s, e)]) {id : ℕ} {call : EnrollCall} (hissues : Issues y.1 y.2 id call) :
    ∃ call', (enrollStep fingerprintFromPem s e).calls.lookup id = some call' ∧
      call'.tokenHash = call.tokenHash ∧ call'.cert.isSome := by
  rcases List.mem_append.mp hy with hy | hy
  · obtain ⟨call₁, hcall₁, htoken₁, hcert₁⟩ := h.issued y hy id call hissues
    obtain ⟨call₂, hcall₂, htoken₂, hcert₂⟩ := exists_calls_enrollStep fingerprintFromPem e hcall₁
    exact ⟨call₂, hcall₂, htoken₂.trans htoken₁, hcert₂ hcert₁⟩
  · rw [List.mem_singleton.mp hy] at hissues
    exact cert_of_issues fingerprintFromPem hissues

/-- Every step keeps the invariant. -/
theorem TokenInv.enrollStep (h : TokenInv hist s) (e : EnrollEvent) :
    TokenInv (hist ++ [(s, e)]) (enrollStep fingerprintFromPem s e) := by
  have hgrows := grows_enrollStep fingerprintFromPem s e
  refine ⟨fun id call hcall => h.known_step hcall, fun id call tenant hcall => h.validated_step hcall,
    fun id call hcall => h.finished_step hcall, fun y hy id call => h.issued_step hy,
    fun id call hcall => h.cert_step hcall, ?_, ?_⟩
  · intro id call hcall hrevoked
    rcases revokes_enrollStep hcall hrevoked with ⟨call', hcall', htoken, hrevoked'⟩ | hnew
    · rw [← htoken]
      exact hgrows.revoked _ (h.revoked id call' hcall' hrevoked')
    · exact hnew
  · intro y hy t hreturns
    apply hgrows.revoked
    rcases List.mem_append.mp hy with hy | hy
    · exact h.returned y hy t hreturns
    · rw [List.mem_singleton.mp hy] at hreturns
      obtain ⟨id, -, hcall⟩ := hreturns
      exact h.revoked id _ hcall rfl

/-- Looking a token up is no certificate. -/
theorem Validates.not_issues {id id' : ℕ} {t : TokenHash} {call : EnrollCall}
    (h : Validates s e id t) : ¬ Issues s e id' call := by
  rintro ⟨hcall', answer', cert, tenant', he', -, hphase'⟩
  obtain ⟨answer, call₁, tenant, he, -, hcall, hphase, -⟩ := h
  cases he.symm.trans he'
  cases hcall.symm.trans hcall'
  exact nomatch hphase.symm.trans hphase'

/-- Looking a token up is no revocation. -/
theorem Validates.not_revokeReturns {id : ℕ} {t t' : TokenHash} (h : Validates s e id t) :
    ¬ RevokeReturns s e t' := by
  rintro ⟨id', he', -⟩
  obtain ⟨answer, call, tenant, he, -⟩ := h
  exact nomatch he.symm.trans he'

/-- **The law of a step, by what raced it.** Along a run, a step obeys the law exactly when it was not
raced. -/
theorem tokenLaw_iff_unraced (hinv : TokenInv hist s)
    (hprior : ∀ pre x post, hist = pre ++ x :: post → TokenInv pre x.1) :
    TokenLaw hist s e ↔ Unraced hist s e := by
  constructor
  · intro hlaw
    refine ⟨?_, ?_, ?_, hlaw.node⟩
    · rintro id call hissues pre x post hsplit - ⟨id', call', hcall', htoken, hcert, -⟩
      obtain ⟨y, hy, call₁, hissues₁, htoken₁⟩ :=
        (hprior pre x post hsplit).cert id' call' hcall' hcert
      refine hlaw.single id call hissues y ?_ id' call₁ hissues₁ (htoken₁.trans htoken)
      rw [hsplit]
      exact List.mem_append_left _ hy
    · intro id call hissues pre x post hsplit _ y hy
      refine hlaw.single id call hissues y ?_
      rw [hsplit]
      exact List.mem_append_right _ (List.mem_cons_of_mem _ hy)
    · intro id call hissues pre x post hsplit _ y hy
      refine hlaw.unrevoked id call hissues y ?_
      rw [hsplit]
      exact List.mem_append_right _ (List.mem_cons_of_mem _ hy)
  · intro hfree
    -- every certificate goes back to a lookup, and that lookup found an unmarked row
    have hlookup : ∀ id call, Issues s e id call → ∃ pre x post, hist = pre ++ x :: post ∧
        Validates x.1 x.2 id call.tokenHash ∧ ¬ Consumed x.1.db call.tokenHash ∧
          ¬ Revoked x.1.db call.tokenHash := by
      rintro id call ⟨hcall, answer, cert, tenant, -, -, hphase⟩
      obtain ⟨x, hx, hvalidates⟩ := hinv.validated id call tenant hcall hphase
      obtain ⟨pre, post, hsplit⟩ := List.append_of_mem hx
      refine ⟨pre, x, post, hsplit, hvalidates, ?_⟩
      obtain ⟨_, _, _, -, -, -, -, -, hcheck⟩ := hvalidates
      exact (of_checkToken hcheck).2
    refine ⟨?_, ?_, hfree.node⟩
    · intro id call hissues y hy id' call' hissues' htoken
      obtain ⟨pre, x, post, hsplit, hvalidates, hfresh, -⟩ := hlookup id call hissues
      rw [hsplit, List.mem_append, List.mem_cons] at hy
      rcases hy with hy | rfl | hy
      · obtain ⟨call₁, hcall₁, htoken₁, hcert₁⟩ :=
          (hprior pre x post hsplit).issued y hy id' call' hissues'
        refine hfree.marked id call hissues pre x post hsplit hvalidates
          ⟨id', call₁, hcall₁, htoken₁.trans htoken, hcert₁, ?_⟩
        intro hfinished
        have hconsumed := (hprior pre x post hsplit).finished id' call₁ hcall₁ hfinished
        rw [htoken₁, htoken] at hconsumed
        exact hfresh hconsumed
      · exact hvalidates.not_issues hissues'
      · exact hfree.alone id call hissues pre x post hsplit hvalidates y hy id' call' hissues' htoken
    · intro id call hissues y hy hreturns
      obtain ⟨pre, x, post, hsplit, hvalidates, -, hfresh⟩ := hlookup id call hissues
      rw [hsplit, List.mem_append, List.mem_cons] at hy
      rcases hy with hy | rfl | hy
      · exact hfresh ((hprior pre x post hsplit).returned y hy _ hreturns)
      · exact hvalidates.not_revokeReturns hreturns
      · exact hfree.unrevoked id call hissues pre x post hsplit hvalidates y hy hreturns

end

/-- Every interleaving of any number of calls of `enroll`, `revoke_pending` and
`issue_pending_token`, over any tables: each certificate is the first for its token, comes before any
answered revocation and is for the token's node, exactly when no call that gets a certificate was raced
and every such call names the token's node. -/
theorem tokenLaw_iff (fingerprintFromPem : Bytes → Except String CertFingerprint) (d : EnrollDb)
    (events : List EnrollEvent) :
    Trace.Always (enrollStep fingerprintFromPem) TokenLaw (noCalls d) events ↔
      Trace.Always (enrollStep fingerprintFromPem) Unraced (noCalls d) events := by
  have hinv : ∀ es, TokenInv (Trace.history (enrollStep fingerprintFromPem) (noCalls d) es)
      (Trace.run (enrollStep fingerprintFromPem) (noCalls d) es) :=
    Trace.invariant_history (tokenInv_noCalls d) fun hist s e h => h.enrollStep e
  have hprior : ∀ es pre x post,
      Trace.history (enrollStep fingerprintFromPem) (noCalls d) es = pre ++ x :: post →
        TokenInv pre x.1 := by
    intro es pre x post hsplit
    obtain ⟨es₁, es₂, -, hpre, hx⟩ := Trace.exists_of_history_eq hsplit
    rw [← hpre, ← hx]
    exact hinv es₁
  apply Trace.always_iff_of_invariant (hinv [])
  · intro es e _
    exact tokenLaw_iff_unraced (hinv es) (hprior es)
  · intro es e h _
    exact h.enrollStep e

/-! ## Two certificates for one token -/

/-- Every statement runs, and the authority signs. -/
def smooth : StepAnswer := ⟨.ok (), .ok ⟨[], []⟩⟩

/-- A service without tokens, nodes or certificates. -/
def freshService : EnrollState := noCalls ⟨∅, ∅, 1, ∅⟩

/-- A token for `laptop`, and two calls that have both looked it up. -/
def twins : List EnrollEvent :=
  [.issue zeroDigest "laptop" 0 0 none, .arrive 0 zeroDigest [] "laptop" 1,
    .arrive 1 zeroDigest [] "laptop" 1, .proceed 0 smooth, .proceed 1 smooth]

/-- Both calls get a certificate. -/
theorem twins_two_certificates :
    ¬ Trace.Always (enrollStep fun _ => .ok zeroDigest) TokenLaw freshService
      (twins ++ [.proceed 0 smooth] ++ [.proceed 1 smooth]) := by
  intro h
  have hlaw := h (twins ++ [.proceed 0 smooth]) (.proceed 1 smooth) [] rfl
  rw [Trace.history_snoc] at hlaw
  refine hlaw.single 1 ⟨zeroDigest, [], "laptop", 1, none, .validated none⟩
    ⟨rfl, smooth, _, none, rfl, rfl, rfl⟩ _ (List.mem_append_right _ List.mem_cons_self) 0
    ⟨zeroDigest, [], "laptop", 1, none, .validated none⟩ ?_ rfl
  exact ⟨rfl, smooth, _, none, rfl, rfl, rfl⟩

end DiskArcana.Enrollment
