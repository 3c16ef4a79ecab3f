import Mathlib.Algebra.Group.Nat.Defs
import DiskArcana.Lib.Trace

/-!
# The sync loop and its backoff

`disk-client/src/sync_loop/mod.rs`: a state, an attempt counter and a deadline, driven by
`begin_sync`, `finish_sync` and `clear_acl_mismatch`. Durations and instants are nanoseconds.

`jittered capped draw` is the floating-point part of `next_delay`: the capped delay times a random
factor, cut off at the cap. Nothing here depends on which function it is.
-/

namespace DiskArcana.Client

open DiskArcana.Lib

/-- Source: `sync_loop/mod.rs`, `BACKOFF_BASE` -/
def backoffBase : ℕ := 1000000000

/-- Source: `sync_loop/mod.rs`, `BACKOFF_CAP` -/
def backoffCap : ℕ := 60 * 1000000000

/-- Source: `sync_loop/mod.rs`, `LoopState` -/
inductive LoopState where
  | idle
  | syncing
  | backoff
  | aclMismatch
  | serverUnreachable
  | error
  deriving DecidableEq, Repr

/-- Source: `sync_loop/mod.rs`, `LoopError` -/
inductive LoopError where
  | shareUnknown
  | transportUnavailable
  | aclRoleMismatch
  | allTransfersFailed (attempted failed : ℕ)
  | cycleDeadlineExceeded (secs : ℕ)
  deriving DecidableEq, Repr

/-- Source: `sync_loop/mod.rs`, `should_backoff` -/
def LoopError.shouldBackoff : LoopError → Bool
  | .shareUnknown | .transportUnavailable | .allTransfersFailed _ _ | .cycleDeadlineExceeded _ =>
    true
  | .aclRoleMismatch => false

/-- Source: `sync_loop/mod.rs`, `Backoff` -/
structure Backoff where
  base : ℕ
  cap : ℕ
  attempt : ℕ
  deriving DecidableEq

/-- Source: `sync_loop/mod.rs`, `Backoff::with_defaults` -/
def Backoff.withDefaults : Backoff := ⟨backoffBase, backoffCap, 0⟩

/-- The delay before jitter: `base * 2^attempt`, saturating at 64 bits and cut off at the cap.
Source: `sync_loop/mod.rs`, first lines of `next_delay` -/
def Backoff.capped (b : Backoff) : ℕ :=
  let expFactor := if b.attempt < 64 then 2 ^ b.attempt else 2 ^ 64 - 1
  min (min (b.base % 2 ^ 64 * expFactor) (2 ^ 64 - 1)) (b.cap % 2 ^ 64)

/-- Source: `sync_loop/mod.rs`, `Backoff::reset` -/
def Backoff.reset (b : Backoff) : Backoff := { b with attempt := 0 }

/-- What began an iteration.
Source: `sync_loop/mod.rs`, `LoopTrigger` -/
inductive LoopTrigger where
  | fsEventBatch
  | tick
  | manual
  deriving DecidableEq, Repr

/-- Source: `sync_loop/mod.rs`, `SyncLoop` -/
structure SyncLoop where
  state : LoopState
  backoff : Backoff
  backoffUntil : Option ℕ
  lastError : Option LoopError
  deriving DecidableEq

/-- Source: `sync_loop/mod.rs`, `SyncLoop::new` -/
def SyncLoop.new : SyncLoop := ⟨.idle, .withDefaults, none, none⟩

/-- Mark a sync as in flight; `false` when the loop refuses.
Source: `sync_loop/mod.rs`, `begin_sync` -/
def SyncLoop.beginSync (s : SyncLoop) (now : ℕ) (_trigger : LoopTrigger) : SyncLoop × Bool :=
  match s.state with
  | .aclMismatch => (s, false)
  | .backoff =>
    match s.backoffUntil with
    | some deadline =>
      if now < deadline then (s, false)
      else ({ s with state := .syncing, backoffUntil := none }, true)
    | none => ({ s with state := .syncing, backoffUntil := none }, true)
  | .idle | .syncing | .serverUnreachable | .error => ({ s with state := .syncing }, true)

/-- Unpin the loop once the operator has corrected the configuration.
Source: `sync_loop/mod.rs`, `clear_acl_mismatch` -/
def SyncLoop.clearAclMismatch (s : SyncLoop) : SyncLoop :=
  if s.state = .aclMismatch then
    { s with state := .idle, lastError := none, backoff := s.backoff.reset }
  else s

section

variable {ρ : Type} (jittered : ℕ → ρ → ℕ)

/-- The next delay, and the counter advanced.
Source: `sync_loop/mod.rs`, `next_delay` -/
def Backoff.nextDelay (b : Backoff) (draw : ρ) : ℕ × Backoff :=
  (jittered b.capped draw, { b with attempt := min (b.attempt + 1) (2 ^ 32 - 1) })

/-- Record the outcome of a sync attempt.
Source: `sync_loop/mod.rs`, `finish_sync` -/
def SyncLoop.finishSync (s : SyncLoop) (outcome : Except LoopError Unit) (now : ℕ) (draw : ρ) :
    SyncLoop :=
  match outcome with
  | .ok () => ⟨.idle, s.backoff.reset, none, none⟩
  | .error err =>
    if err.shouldBackoff then
      let (delay, backoff) := s.backoff.nextDelay jittered draw
      let state := match err with
        | .transportUnavailable => LoopState.serverUnreachable
        | .allTransfersFailed _ _ | .cycleDeadlineExceeded _ => .error
        | .shareUnknown | .aclRoleMismatch => .backoff
      ⟨state, backoff, some (now + delay), some err⟩
    else { s with state := .aclMismatch, backoffUntil := none, lastError := some err }

/-! ## Runs of calls -/

/-- A call of the loop, with its time and what the random source yields. -/
inductive Call (ρ : Type) where
  | beginSync (now : ℕ) (trigger : LoopTrigger)
  | finishSync (outcome : Except LoopError Unit) (now : ℕ) (draw : ρ)
  | clearAclMismatch

/-- The time of a call. -/
def Call.time : Call ρ → Option ℕ
  | .beginSync now _ => some now
  | .finishSync _ now _ => some now
  | .clearAclMismatch => none

/-- One call. -/
def SyncLoop.call (s : SyncLoop) : Call ρ → SyncLoop
  | .beginSync now trigger => (s.beginSync now trigger).1
  | .finishSync outcome now draw => s.finishSync jittered outcome now draw
  | .clearAclMismatch => s.clearAclMismatch

/-- The calls are made at non-decreasing times. -/
def TimeOrdered (calls : List (Call ρ)) : Prop :=
  (calls.filterMap Call.time).Pairwise (· ≤ ·)

/-- The end of the delay that a retryable failure sets. -/
def deadlineOf (x : SyncLoop × Call ρ) : Option ℕ :=
  match x.2 with
  | .finishSync (.error err) now draw =>
    if err.shouldBackoff then some (now + (x.1.backoff.nextDelay jittered draw).1) else none
  | _ => none

/-- What is asked of one call after a history of calls. -/
structure Disciplined (hist : List (SyncLoop × Call ρ)) (s : SyncLoop) (e : Call ρ) : Prop where
  /-- No attempt begins before the end of an earlier delay. -/
  waits : ∀ now trigger, e = .beginSync now trigger → ∀ x ∈ hist, ∀ deadline,
    deadlineOf jittered x = some deadline → now < deadline → (s.beginSync now trigger).2 = false
  /-- The deadline is set exactly in the backoff state. -/
  deadline_iff : (s.call jittered e).backoffUntil.isSome = true ↔ (s.call jittered e).state = .backoff
  /-- No attempt begins while another is in flight. -/
  exclusive : ∀ now trigger, e = .beginSync now trigger → s.state = .syncing →
    (s.beginSync now trigger).2 = false
  /-- The first delay after a success is the base delay. -/
  restarts : ∀ err now draw, e = .finishSync (.error err) now draw → err.shouldBackoff = true →
    ∀ pre s₀ now₀ draw₀ mid, hist = pre ++ (s₀, .finishSync (.ok ()) now₀ draw₀) :: mid →
      (∀ x ∈ mid, deadlineOf jittered x = none) →
        (s.backoff.nextDelay jittered draw).1 = jittered backoffBase draw

/-- A call that stays off two gaps of the loop: no attempt is begun while one is in flight, and the
only retryable failure is `share.unknown`. -/
def Call.StaysOff (s : SyncLoop) : Call ρ → Prop
  | .beginSync _ _ => s.state ≠ .syncing
  | .finishSync (.error err) _ _ => err = .shareUnknown ∨ err = .aclRoleMismatch
  | .finishSync (.ok ()) _ _ => True
  | .clearAclMismatch => True

/-- No outcome is recorded before the end of the current delay. -/
def Call.OffDwell (s : SyncLoop) : Call ρ → Prop
  | .finishSync _ now _ => ∀ deadline ∈ s.backoffUntil, deadline ≤ now
  | .beginSync _ _ => True
  | .clearAclMismatch => True

/-- A call is not earlier than those before it. -/
def InOrder (hist : List (SyncLoop × Call ρ)) (_s : SyncLoop) (e : Call ρ) : Prop :=
  ∀ y ∈ hist, ∀ t t', y.2.time = some t → e.time = some t' → t ≤ t'

/-! ## One call -/

variable {jittered} {s : SyncLoop} {e : Call ρ} {hist : List (SyncLoop × Call ρ)} {now : ℕ}
  {trigger : LoopTrigger}

/-- An attempt is refused while the loop is pinned or dwells, and begins otherwise. Where the
deadline is set in the backoff state only, an attempt that begins leaves none. -/
theorem SyncLoop.beginSync_cases
    (hs : s.backoffUntil.isSome = true → s.state = .backoff) (now : ℕ) (trigger : LoopTrigger) :
    (s.beginSync now trigger = (s, false) ∧ s.state ≠ .syncing ∧
      (s.state = .aclMismatch ∨ ∃ deadline, s.backoffUntil = some deadline ∧ now < deadline)) ∨
    (s.beginSync now trigger = ({ s with state := .syncing, backoffUntil := none }, true) ∧
      s.state ≠ .aclMismatch ∧ ∀ deadline, s.backoffUntil = some deadline → deadline ≤ now) := by
  unfold SyncLoop.beginSync
  obtain ⟨state, backoff, backoffUntil, lastError⟩ := s
  cases state with
  | aclMismatch => exact Or.inl ⟨rfl, by simp, Or.inl rfl⟩
  | backoff =>
      rcases backoffUntil with _ | deadline
      · exact Or.inr ⟨rfl, by simp, by simp⟩
      · by_cases h : now < deadline
        · exact Or.inl ⟨by simp [h], by simp, Or.inr ⟨deadline, rfl, h⟩⟩
        · exact Or.inr ⟨by simp [h], by simp, by simpa using h⟩
  | idle | syncing | serverUnreachable | error =>
      rcases backoffUntil with _ | deadline
      · exact Or.inr ⟨rfl, by simp, by simp⟩
      · simp at hs

variable (jittered) in
/-- The three kinds of outcomes. -/
theorem SyncLoop.finishSync_cases (s : SyncLoop) (outcome : Except LoopError Unit) (now : ℕ)
    (draw : ρ) :
    (outcome = .ok () ∧
      s.finishSync jittered outcome now draw = ⟨.idle, s.backoff.reset, none, none⟩) ∨
    (∃ err, outcome = .error err ∧ err.shouldBackoff = true ∧
      (s.finishSync jittered outcome now draw).backoffUntil =
        some (now + (s.backoff.nextDelay jittered draw).1) ∧
      (s.finishSync jittered outcome now draw).backoff = (s.backoff.nextDelay jittered draw).2 ∧
      ((s.finishSync jittered outcome now draw).state = .backoff ↔ err = .shareUnknown)) ∨
    (outcome = .error .aclRoleMismatch ∧ s.finishSync jittered outcome now draw =
      { s with state := .aclMismatch, backoffUntil := none, lastError := some .aclRoleMismatch }) := by
  rcases outcome with err | ⟨⟩
  · cases err with
    | aclRoleMismatch => exact Or.inr (Or.inr ⟨rfl, rfl⟩)
    | shareUnknown => exact Or.inr (Or.inl ⟨_, rfl, rfl, rfl, rfl, by simp [SyncLoop.finishSync, LoopError.shouldBackoff]⟩)
    | transportUnavailable | allTransfersFailed | cycleDeadlineExceeded =>
        exact Or.inr (Or.inl ⟨_, rfl, rfl, rfl, rfl, by simp [SyncLoop.finishSync, LoopError.shouldBackoff]⟩)
  · exact Or.inl ⟨rfl, rfl⟩

/-- What holds between the calls of a run that stays off the gaps. -/
structure LoopInv (jittered : ℕ → ρ → ℕ) (hist : List (SyncLoop × Call ρ)) (s : SyncLoop) :
    Prop where
  deadline_iff : s.backoffUntil.isSome = true ↔ s.state = .backoff
  /-- A delay is over, or the deadline is not before its end. -/
  covered : ∀ x ∈ hist, ∀ deadline, deadlineOf jittered x = some deadline →
    (∃ y ∈ hist, ∃ t, y.2.time = some t ∧ deadline ≤ t) ∨
      ∃ current, s.backoffUntil = some current ∧ deadline ≤ current
  base_eq : s.backoff.base = backoffBase ∧ s.backoff.cap = backoffCap
  restarted : ∀ pre s₀ now₀ draw₀ mid, hist = pre ++ (s₀, .finishSync (.ok ()) now₀ draw₀) :: mid →
    (∀ x ∈ mid, deadlineOf jittered x = none) → s.backoff.attempt = 0

theorem LoopInv.new : LoopInv jittered [] .new where
  deadline_iff := by simp [SyncLoop.new]
  covered x hx := absurd hx List.not_mem_nil
  base_eq := ⟨rfl, rfl⟩
  restarted pre s₀ now₀ draw₀ mid h := by simp at h

/-- The first delay of the curve is the base delay. -/
theorem capped_of_attempt {b : Backoff} (hbase : b.base = backoffBase ∧ b.cap = backoffCap)
    (h : b.attempt = 0) : b.capped = backoffBase := by
  unfold Backoff.capped
  rw [hbase.1, hbase.2, h]
  decide

/-- A delay that is covered stays so when the current deadline has passed. -/
theorem LoopInv.covered_of_passed (h : LoopInv jittered hist s) {t : ℕ} (he : e.time = some t)
    (hpassed : ∀ deadline, s.backoffUntil = some deadline → deadline ≤ t) :
    ∀ x ∈ hist, ∀ deadline, deadlineOf jittered x = some deadline →
      ∃ y ∈ hist ++ [(s, e)], ∃ t, y.2.time = some t ∧ deadline ≤ t := by
  intro x hx deadline hd
  rcases h.covered x hx deadline hd with ⟨y, hy, t', ht', hle⟩ | ⟨current, hc, hle⟩
  · exact ⟨y, List.mem_append_left _ hy, t', ht', hle⟩
  · exact ⟨(s, e), by simp, t, he, Nat.le_trans hle (hpassed current hc)⟩

/-- The restart clause after a call that neither succeeds nor sets a delay. -/
theorem LoopInv.restarted_of_quiet (h : LoopInv jittered hist s) {attempt : ℕ}
    (hattempt : s.backoff.attempt = 0 → attempt = 0)
    (hok : ∀ now₀ draw₀, e ≠ .finishSync (.ok ()) now₀ draw₀)
    (pre : List (SyncLoop × Call ρ)) (s₀ : SyncLoop) (now₀ : ℕ) (draw₀ : ρ)
    (mid : List (SyncLoop × Call ρ))
    (hhist : hist ++ [(s, e)] = pre ++ (s₀, .finishSync (.ok ()) now₀ draw₀) :: mid)
    (hmid : ∀ x ∈ mid, deadlineOf jittered x = none) : attempt = 0 := by
  rcases List.eq_nil_or_concat mid with rfl | ⟨mid, z, rfl⟩
  · obtain ⟨-, hlast⟩ := List.append_inj' hhist rfl
    cases hlast
    exact absurd rfl (hok now₀ draw₀)
  · rw [List.concat_eq_append, ← List.cons_append, ← List.append_assoc] at hhist
    obtain ⟨hhist, -⟩ := List.append_inj' hhist rfl
    apply hattempt
    exact h.restarted pre s₀ now₀ draw₀ mid hhist fun x hx => hmid x (by simp [hx])

/-- A call that sets no delay and keeps the deadline keeps what is covered. -/
theorem LoopInv.covered_of_same (h : LoopInv jittered hist s) {s' : SyncLoop}
    (he : deadlineOf jittered (s, e) = none) (hsame : s'.backoffUntil = s.backoffUntil) :
    ∀ x ∈ hist ++ [(s, e)], ∀ deadline, deadlineOf jittered x = some deadline →
      (∃ y ∈ hist ++ [(s, e)], ∃ t, y.2.time = some t ∧ deadline ≤ t) ∨
        ∃ current, s'.backoffUntil = some current ∧ deadline ≤ current := by
  intro x hx deadline hd
  rcases List.mem_append.mp hx with hx | hx
  · rw [hsame]
    rcases h.covered x hx deadline hd with ⟨y, hy, hrest⟩ | hcurrent
    · exact Or.inl ⟨y, List.mem_append_left _ hy, hrest⟩
    · exact Or.inr hcurrent
  · rw [List.mem_singleton.mp hx, he] at hd
    cases hd

/-- A call that sets no delay and is made after the deadline keeps what is covered. -/
theorem LoopInv.covered_of_over (h : LoopInv jittered hist s) {s' : SyncLoop} {t : ℕ}
    (he : deadlineOf jittered (s, e) = none) (htime : e.time = some t)
    (hpassed : ∀ deadline, s.backoffUntil = some deadline → deadline ≤ t) :
    ∀ x ∈ hist ++ [(s, e)], ∀ deadline, deadlineOf jittered x = some deadline →
      (∃ y ∈ hist ++ [(s, e)], ∃ t, y.2.time = some t ∧ deadline ≤ t) ∨
        ∃ current, s'.backoffUntil = some current ∧ deadline ≤ current := by
  intro x hx deadline hd
  rcases List.mem_append.mp hx with hx | hx
  · exact Or.inl (h.covered_of_passed htime hpassed x hx deadline hd)
  · rw [List.mem_singleton.mp hx, he] at hd
    cases hd

theorem LoopInv.beginSync (h : LoopInv jittered hist s) (now : ℕ) (trigger : LoopTrigger) :
    LoopInv jittered (hist ++ [(s, .beginSync now trigger)]) (s.beginSync now trigger).1 := by
  rcases s.beginSync_cases h.deadline_iff.mp now trigger with ⟨heq, -, -⟩ | ⟨heq, -, hpassed⟩
  · rw [heq]
    exact ⟨h.deadline_iff, h.covered_of_same rfl rfl, h.base_eq,
      h.restarted_of_quiet id fun _ _ => nofun⟩
  · rw [heq]
    exact ⟨by simp, h.covered_of_over rfl rfl hpassed, h.base_eq,
      h.restarted_of_quiet id fun _ _ => nofun⟩

theorem LoopInv.clearAclMismatch (h : LoopInv jittered hist s) :
    LoopInv jittered (hist ++ [(s, .clearAclMismatch)]) s.clearAclMismatch := by
  unfold SyncLoop.clearAclMismatch
  split_ifs with hacl
  · have hnone : s.backoffUntil = none := by
      rw [← Option.not_isSome_iff_eq_none, h.deadline_iff, hacl]
      nofun
    exact ⟨by simp [hnone], h.covered_of_same rfl rfl, h.base_eq,
      h.restarted_of_quiet (fun _ => rfl) fun _ _ => nofun⟩
  · exact ⟨h.deadline_iff, h.covered_of_same rfl rfl, h.base_eq,
      h.restarted_of_quiet id fun _ _ => nofun⟩

theorem LoopInv.finishSync (h : LoopInv jittered hist s) {outcome : Except LoopError Unit}
    {now : ℕ} {draw : ρ} (hoff : (Call.finishSync outcome now draw).StaysOff s)
    (hdwell : (Call.finishSync outcome now draw).OffDwell s) :
    LoopInv jittered (hist ++ [(s, .finishSync outcome now draw)])
      (s.finishSync jittered outcome now draw) := by
  rcases s.finishSync_cases jittered outcome now draw with
    ⟨rfl, heq⟩ | ⟨err, rfl, herr, huntil, hbackoff, hstate⟩ | ⟨rfl, heq⟩
  · rw [heq]
    exact ⟨by simp, h.covered_of_over rfl rfl hdwell, h.base_eq, fun _ _ _ _ _ _ _ => rfl⟩
  · -- a retryable failure: its own delay is the current one, and the earlier ones are over
    have hown : deadlineOf jittered (s, .finishSync (.error err) now draw) =
        some (now + (s.backoff.nextDelay jittered draw).1) := if_pos herr
    refine ⟨?_, fun x hx deadline hd => ?_, ?_, fun pre s₀ now₀ draw₀ mid hhist hmid => ?_⟩
    · rw [huntil, hstate]
      rcases hoff with rfl | rfl
      · simp
      · cases herr
    · rcases List.mem_append.mp hx with hx | hx
      · exact Or.inl (h.covered_of_passed rfl hdwell x hx deadline hd)
      · rw [List.mem_singleton.mp hx, hown] at hd
        cases hd
        exact Or.inr ⟨_, huntil, Nat.le_refl _⟩
    · rw [hbackoff]
      exact h.base_eq
    · rcases List.eq_nil_or_concat mid with rfl | ⟨mid, z, rfl⟩
      · obtain ⟨-, hlast⟩ := List.append_inj' hhist rfl
        cases hlast
      · rw [List.concat_eq_append, ← List.cons_append, ← List.append_assoc] at hhist
        obtain ⟨-, hlast⟩ := List.append_inj' hhist rfl
        have hz := hmid z (by simp)
        rw [← List.singleton_inj.mp hlast, hown] at hz
        cases hz
  · rw [heq]
    exact ⟨by simp, h.covered_of_over rfl rfl hdwell, h.base_eq,
      h.restarted_of_quiet id fun _ _ => nofun⟩

/-- **What one call keeps.** -/
theorem LoopInv.call (h : LoopInv jittered hist s) (hoff : e.StaysOff s) (hdwell : e.OffDwell s) :
    LoopInv jittered (hist ++ [(s, e)]) (s.call jittered e) := by
  cases e with
  | beginSync now trigger => exact h.beginSync now trigger
  | finishSync outcome now draw => exact h.finishSync hoff hdwell
  | clearAclMismatch => exact h.clearAclMismatch

/-- **What the invariant gives for a call.** -/
theorem LoopInv.disciplined (h : LoopInv jittered hist s) (horder : InOrder hist s e)
    (hoff : e.StaysOff s) (hdwell : e.OffDwell s) : Disciplined jittered hist s e where
  waits := by
    rintro now trigger rfl x hx deadline hd hlt
    rcases s.beginSync_cases h.deadline_iff.mp now trigger with ⟨heq, -, -⟩ | ⟨-, -, hpassed⟩
    · rw [heq]
    · rcases h.covered x hx deadline hd with ⟨y, hy, t, ht, hle⟩ | ⟨current, hc, hle⟩
      · have := horder y hy t now ht rfl
        omega
      · have := hpassed current hc
        omega
  deadline_iff := (h.call hoff hdwell).deadline_iff
  exclusive := by
    rintro now trigger rfl hsyncing
    exact absurd hsyncing hoff
  restarts := by
    rintro err now draw - - pre s₀ now₀ draw₀ mid hhist hmid
    show jittered s.backoff.capped draw = _
    rw [capped_of_attempt h.base_eq (h.restarted pre s₀ now₀ draw₀ mid hhist hmid)]

/-- A disciplined call stays off the gaps. -/
theorem Disciplined.staysOff (h : Disciplined jittered hist s e) : e.StaysOff s := by
  cases e with
  | beginSync now trigger =>
      intro hsyncing
      have hrefused := h.exclusive now trigger rfl hsyncing
      unfold SyncLoop.beginSync at hrefused
      rw [hsyncing] at hrefused
      cases hrefused
  | finishSync outcome now draw =>
      rcases s.finishSync_cases jittered outcome now draw with
        ⟨rfl, -⟩ | ⟨err, rfl, -, huntil, -, hstate⟩ | ⟨rfl, -⟩
      · trivial
      · left
        apply hstate.mp
        apply h.deadline_iff.mp
        show (s.finishSync jittered (.error err) now draw).backoffUntil.isSome = true
        rw [huntil]
        rfl
      · exact Or.inr rfl
  | clearAclMismatch => trivial

/-- Calls at non-decreasing times are in order along the run. -/
theorem always_inOrder {calls : List (Call ρ)} (h : TimeOrdered calls) (s : SyncLoop) :
    Trace.Always (SyncLoop.call jittered) InOrder s calls := by
  rintro pre e post rfl y hy t t' ht ht'
  unfold TimeOrdered at h
  rw [List.filterMap_append, List.pairwise_append] at h
  apply h.2.2
  · apply List.mem_filterMap.mpr
    refine ⟨y.2, ?_, ht⟩
    rw [← Trace.history_map_snd (SyncLoop.call jittered) s pre]
    exact List.mem_map_of_mem hy
  · rw [List.filterMap_cons_some ht']
    exact List.mem_cons_self

variable (jittered)

/-- **The discipline of the loop over runs.** Along every run of calls at non-decreasing times in
which no attempt is begun while one is in flight, no retryable failure but `share.unknown` is
recorded and no outcome is recorded during a dwell, every call is disciplined; and a run whose calls
are disciplined has no call of the first two kinds. -/
theorem syncLoop_disciplined (calls : List (Call ρ)) (horder : TimeOrdered calls) :
    (Trace.Always (SyncLoop.call jittered) (fun _ s e => e.StaysOff s ∧ e.OffDwell s) .new calls →
      Trace.Always (SyncLoop.call jittered) (Disciplined jittered) .new calls) ∧
    (Trace.Always (SyncLoop.call jittered) (Disciplined jittered) .new calls →
      Trace.Always (SyncLoop.call jittered) (fun _ s e => e.StaysOff s) .new calls) := by
  constructor
  · intro h
    have hboth := Trace.always_and.mpr ⟨always_inOrder horder .new, h⟩
    exact (Trace.Always.of_invariant LoopInv.new
      (fun es e hI hψ => hI.disciplined hψ.1 hψ.2.1 hψ.2.2)
      (fun es e hI hψ => hI.call hψ.2.1 hψ.2.2) hboth).1
  · intro h pre e post hes
    exact (h pre e post hes).staysOff

end

instance {ρ : Type} (s : SyncLoop) (e : Call ρ) : Decidable (e.StaysOff s) :=
  match e with
  | .beginSync _ _ => inferInstanceAs (Decidable (s.state ≠ .syncing))
  | .finishSync (.error err) _ _ =>
    inferInstanceAs (Decidable (err = .shareUnknown ∨ err = .aclRoleMismatch))
  | .finishSync (.ok ()) _ _ => inferInstanceAs (Decidable True)
  | .clearAclMismatch => inferInstanceAs (Decidable True)

instance {ρ : Type} (s : SyncLoop) (e : Call ρ) : Decidable (e.OffDwell s) :=
  match e with
  | .beginSync _ _ => inferInstanceAs (Decidable True)
  | .finishSync _ now _ => inferInstanceAs (Decidable (∀ deadline ∈ s.backoffUntil, deadline ≤ now))
  | .clearAclMismatch => inferInstanceAs (Decidable True)

/-- A share that is unknown twice, then known: the second attempt waits for the end of the delay. -/
theorem syncLoop_disciplined_run :
    Trace.Always (SyncLoop.call fun capped (_ : Unit) => capped)
      (Disciplined fun capped _ => capped) .new
      [.beginSync 0 .tick, .finishSync (.error .shareUnknown) 10 (), .beginSync 20 .manual,
        .beginSync 1000000010 .tick, .finishSync (.error .shareUnknown) 1000000020 (),
        .beginSync 3000000020 .tick, .finishSync (.ok ()) 3000000030 ()] :=
  (syncLoop_disciplined _ _ (by unfold TimeOrdered; decide)).1
    (Trace.always_of_check (by decide +kernel))

/-- The server is unreachable at the end of the first attempt, and the second one begins at once, two
nanoseconds later. -/
theorem not_disciplined_of_unavailable :
    ¬ ∀ calls : List (Call Unit), TimeOrdered calls →
      Trace.Always (SyncLoop.call fun capped _ => capped) (Disciplined fun capped _ => capped) .new
        calls := by
  intro h
  have hcalls := h [.beginSync 0 .tick, .finishSync (.error .transportUnavailable) 1 (),
    .beginSync 3 .tick] (by unfold TimeOrdered; decide)
  have hlast := hcalls [.beginSync 0 .tick, .finishSync (.error .transportUnavailable) 1 ()]
    (.beginSync 3 .tick) [] rfl
  have hrefused := hlast.waits 3 .tick rfl _ (List.mem_cons_of_mem _ (List.mem_singleton_self _))
    1000000001 (by decide) (by decide)
  revert hrefused
  decide

end DiskArcana.Client
