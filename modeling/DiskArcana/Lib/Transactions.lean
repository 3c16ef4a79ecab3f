import Mathlib.Logic.Relation
import DiskArcana.Lib.Trace

/-!
# Sessions with a transactional database

A program over a session reads the tables, and changes them in transactions. A statement can fail, a
commit can be lost, and its reply can be lost, where the transaction has taken effect. A statement that
fails ends its transaction, whichever of its statements it is, so that one `Fault` stands for a read or a
whole transaction. After a failure the session is uncertain and refuses everything until it is opened
again. A process that stops within a call leaves the tables that a fault at the same place leaves, and
its next event is `reopen`.

`Triple P m Q A` is the rule for what a program leaves behind: from tables with `P` it leaves tables with
`A` in any case, and tables with `Q v` where it returns `v`. `durable_run` carries what a call can do to
the tables over whole runs.
-/

namespace DiskArcana.Lib.Transactions

variable {τ ρ α β κ : Type}

inductive Fault
  | none | statement | commitLost | replyLost | rollback
  deriving DecidableEq

structure Session (τ : Type) where
  durable : τ
  uncertain : Bool
  faults : List Fault
  deriving DecidableEq

/-- The refusals of a session itself. -/
class Refusals (ρ : Type) where
  pending : ρ
  unavailable : ρ

open Refusals

/-- Why a transaction is given up: a statement violates a constraint, or the program refuses. -/
inductive Stop (ρ : Type)
  | violation
  | refused (e : ρ)
  deriving DecidableEq

theorem bind_eq_ok {x : Except ρ α} {f : α → Except ρ β} {b : β} :
    x >>= f = .ok b ↔ ∃ a, x = .ok a ∧ f a = .ok b := by
  rcases x with e | a
  · constructor
    · intro h
      cases h
    · rintro ⟨a, ha, -⟩
      cases ha
  · constructor
    · intro h
      exact ⟨a, rfl, h⟩
    · rintro ⟨a', ha, h⟩
      cases ha
      exact h

def Sql (τ ρ α : Type) := Session τ → Except ρ α × Session τ

namespace Session

def fault (s : Session τ) : Fault := s.faults.headD .none

def next (s : Session τ) : Session τ := { s with faults := s.faults.tail }

def poison (s : Session τ) : Session τ := { s.next with uncertain := true }

@[simp] theorem durable_next (s : Session τ) : s.next.durable = s.durable := rfl

@[simp] theorem durable_poison (s : Session τ) : s.poison.durable = s.durable := rfl

end Session

/-! ## Programs -/

instance : Monad (Sql τ ρ) where
  pure a := fun s => (.ok a, s)
  bind m k := fun s =>
    match m s with
    | (.ok a, s') => k a s'
    | (.error e, s') => (.error e, s')

/-- A check that does not look at the tables. -/
def check (a : Except ρ α) : Sql τ ρ α := fun s => (a, s)

/-- The answer of a program as a value. -/
def attempt (m : Sql τ ρ α) : Sql τ ρ (Except ρ α) := fun s => (.ok (m s).1, (m s).2)

def reading [Refusals ρ] (f : τ → Except ρ α) : Sql τ ρ α := fun s =>
  if s.uncertain then (.error pending, s)
  else if s.fault = .statement then (.error unavailable, s.poison)
  else (f s.durable, s.next)

def transaction [Refusals ρ] (body : τ → Except (Stop ρ) τ) : Sql τ ρ Unit := fun s =>
  if s.uncertain then (.error pending, s)
  else if s.fault = .statement then (.error unavailable, s.poison)
  else
    match body s.durable with
    | .error .violation => (.error unavailable, s.poison)
    | .error (.refused e) => (.error e, if s.fault = .rollback then s.poison else s.next)
    | .ok t =>
        match s.fault with
        | .commitLost => (.error pending, s.poison)
        | .replyLost => (.error pending, { s.poison with durable := t })
        | _ => (.ok (), { s.next with durable := t })

theorem bind_apply (m : Sql τ ρ α) (k : α → Sql τ ρ β) (s : Session τ) :
    (m >>= k) s =
      match m s with
      | (.ok a, s') => k a s'
      | (.error e, s') => (.error e, s') := rfl

theorem bind_of_ok {m : Sql τ ρ α} {k : α → Sql τ ρ β} {s s' : Session τ} {a : α}
    (h : m s = (.ok a, s')) : (m >>= k) s = k a s' := by
  rw [bind_apply, h]

theorem bind_of_error {m : Sql τ ρ α} {k : α → Sql τ ρ β} {s s' : Session τ} {e : ρ}
    (h : m s = (.error e, s')) : (m >>= k) s = (.error e, s') := by
  rw [bind_apply, h]

@[simp] theorem check_apply (a : Except ρ α) (s : Session τ) : check a s = (a, s) := rfl

/-! ## Sessions without faults -/

/-- An uncertain session refuses to read. -/
theorem reading_uncertain [Refusals ρ] (f : τ → Except ρ α) (t : τ) (faults : List Fault) :
    reading f ⟨t, true, faults⟩ = (.error pending, ⟨t, true, faults⟩) := rfl

section Sound

variable [Refusals ρ] {t : τ}

@[simp] theorem reading_sound (f : τ → Except ρ α) : reading f ⟨t, false, []⟩ = (f t, ⟨t, false, []⟩) :=
  rfl

/-- A body that goes through is committed. -/
theorem transaction_of_ok {body : τ → Except (Stop ρ) τ} {t' : τ} (h : body t = .ok t') :
    transaction body ⟨t, false, []⟩ = (.ok (), ⟨t', false, []⟩) := by
  simp [transaction, Session.fault, Session.next, h]

/-- A body that refuses changes nothing. -/
theorem transaction_of_refused {body : τ → Except (Stop ρ) τ} {e : ρ}
    (h : body t = .error (.refused e)) :
    transaction body ⟨t, false, []⟩ = (.error e, ⟨t, false, []⟩) := by
  simp [transaction, Session.fault, Session.next, h]

/-- Nor does one that violates a constraint. -/
theorem transaction_of_violation {body : τ → Except (Stop ρ) τ} (h : body t = .error .violation) :
    transaction body ⟨t, false, []⟩ = (.error unavailable, ⟨t, true, []⟩) := by
  simp [transaction, Session.fault, Session.poison, Session.next, h]

end Sound

/-! ## Rules -/

/-- From tables with `P` the program leaves tables with `A`, and with `Q v` where it returns `v`. -/
def Triple (P : τ → Prop) (m : Sql τ ρ α) (Q : α → τ → Prop) (A : τ → Prop) : Prop :=
  ∀ s, P s.durable → A (m s).2.durable ∧ ∀ v, (m s).1 = .ok v → Q v (m s).2.durable

namespace Triple

variable {P P' A : τ → Prop} {Q Q' : α → τ → Prop} {R : β → τ → Prop} {m : Sql τ ρ α}
  {k : α → Sql τ ρ β}

theorem pure {a : α} (hA : ∀ t, P t → A t) (hQ : ∀ t, P t → Q a t) :
    Triple P (Pure.pure a : Sql τ ρ α) Q A := by
  intro s hs
  refine ⟨hA _ hs, ?_⟩
  intro v hv
  cases hv
  exact hQ _ hs

theorem check {a : Except ρ α} (hA : ∀ t, P t → A t) (hQ : ∀ t v, P t → a = .ok v → Q v t) :
    Triple P (Transactions.check a) Q A := by
  intro s hs
  refine ⟨hA _ hs, ?_⟩
  intro v hv
  exact hQ _ v hs hv

/-- Sequencing. -/
theorem bind (hm : Triple P m Q A) (hk : ∀ a, Triple (Q a) (k a) R A) : Triple P (m >>= k) R A := by
  intro s hs
  obtain ⟨hA, hQ⟩ := hm s hs
  rw [bind_apply]
  rcases hms : m s with ⟨e | a, s'⟩
  · rw [hms] at hA
    refine ⟨hA, ?_⟩
    intro v hv
    cases hv
  · rw [hms] at hQ
    exact hk a s' (hQ a rfl)

/-- Consequence. -/
theorem mono (hm : Triple P m Q A) (hP : ∀ t, P' t → P t) (hQ : ∀ v t, Q v t → Q' v t) :
    Triple P' m Q' A := by
  intro s hs
  obtain ⟨hA, hv⟩ := hm s (hP _ hs)
  exact ⟨hA, fun v h => hQ v _ (hv v h)⟩

theorem always (hm : Triple P m Q A) : Triple P m (fun v t => Q v t ∧ A t) A := by
  intro s hs
  obtain ⟨hA, hv⟩ := hm s hs
  exact ⟨hA, fun v h => ⟨hv v h, hA⟩⟩

/-- What fails under `attempt` has left what it leaves. -/
theorem attempt (hm : Triple P m Q A) :
    Triple P (Transactions.attempt m) (fun a t => A t ∧ ∀ v, a = .ok v → Q v t) A := by
  intro s hs
  obtain ⟨hA, hQ⟩ := hm s hs
  refine ⟨hA, ?_⟩
  intro a ha
  cases ha
  exact ⟨hA, hQ⟩

/-- A program that cannot be reached. -/
theorem absurd (h : ∀ t, ¬ P t) : Triple P m Q A := fun s hs => (h s.durable hs).elim

variable [Refusals ρ]

/-- A read leaves the tables as they are, and returns what they hold. -/
theorem reading {f : τ → Except ρ α} (hA : ∀ t, P t → A t) (hQ : ∀ t v, P t → f t = .ok v → Q v t) :
    Triple P (Transactions.reading f) Q A := by
  intro s hs
  unfold Transactions.reading
  split_ifs
  · exact ⟨hA _ hs, fun v hv => by cases hv⟩
  · exact ⟨hA _ hs, fun v hv => by cases hv⟩
  · exact ⟨hA _ hs, fun v hv => hQ _ v hs hv⟩

/-- A transaction leaves the tables as they are or takes effect as a whole, and returns only if it has. -/
theorem transaction {body : τ → Except (Stop ρ) τ} {Q : τ → Prop} (hA : ∀ t, P t → A t)
    (hbody : ∀ t t', P t → body t = .ok t' → A t' ∧ Q t') :
    Triple P (Transactions.transaction body) (fun _ => Q) A := by
  intro s hs
  have hold : A s.durable := hA _ hs
  unfold Transactions.transaction
  by_cases huncertain : s.uncertain = true
  · rw [if_pos huncertain]
    exact ⟨hold, fun v hv => by cases hv⟩
  · rw [if_neg huncertain]
    by_cases hfault : s.fault = .statement
    · rw [if_pos hfault]
      exact ⟨hold, fun v hv => by cases hv⟩
    · rw [if_neg hfault]
      rcases hresult : body s.durable with (_ | e) | t
      · exact ⟨hold, fun v hv => by cases hv⟩
      · refine ⟨?_, fun v hv => by cases hv⟩
        dsimp only
        split_ifs <;> exact hold
      · obtain ⟨hnew, hQ⟩ := hbody _ _ hs hresult
        cases s.fault with
        | commitLost => exact ⟨hold, fun v hv => by cases hv⟩
        | replyLost => exact ⟨hnew, fun v hv => by cases hv⟩
        | none => exact ⟨hnew, fun _ _ => hQ⟩
        | statement => exact ⟨hnew, fun _ _ => hQ⟩
        | rollback => exact ⟨hnew, fun _ _ => hQ⟩

end Triple

/-! ## Runs -/

/-- A call with what goes wrong during it, or the store opened again. -/
inductive Event (κ : Type)
  | call (c : κ) (faults : List Fault)
  | reopen

def step (exec : κ → Session τ → Session τ) (s : Session τ) : Event κ → Session τ
  | .call c faults => exec c { s with faults := faults }
  | .reopen => { s with uncertain := false, faults := [] }

/-- What every call does to the tables, a run does in steps. -/
theorem durable_run {exec : κ → Session τ → Session τ} {Change : τ → τ → Prop}
    (hexec : ∀ c s, Relation.ReflTransGen Change s.durable (exec c s).durable)
    (s : Session τ) (es : List (Event κ)) :
    Relation.ReflTransGen Change s.durable (Trace.run (step exec) s es).durable := by
  induction es using List.reverseRecOn with
  | nil => exact .refl
  | append_singleton es e ih =>
      rw [Trace.run_snoc]
      cases e with
      | call c faults => exact ih.trans (hexec c { Trace.run (step exec) s es with faults := faults })
      | reopen => exact ih

end DiskArcana.Lib.Transactions
