import Mathlib.Data.Nat.Notation
import Mathlib.Logic.Relation

/-!
# Programs whose steps can fail

A program over a state, most of whose steps can fail. A step that fails has got some way (`Fault`): a
read has done nothing, a change that is made as a whole has been made or not, and a write of bytes has
written some of them. A process that stops within a program leaves the state that a fault at the same
place leaves.

`Triple P m Q A` is the rule for what a program leaves behind, wherever it stops: from states with `P` it
leaves states with `A` in any case, and with `Q v` where it returns `v`. Where nothing fails a program is
evaluated step by step (`bind_of_ok`, `step_nil_of_ok`).
-/

namespace DiskArcana.Lib.Interrupted

variable {σ ε α β : Type}

/-- How far a step got that failed, and `none` for one that did not. -/
abbrev Fault := Option ℕ

/-- A program; every step that can fail takes the next fault. -/
def Prog (σ ε α : Type) := σ → List Fault → Except ε α × σ × List Fault

instance : Monad (Prog σ ε) where
  pure a := fun s fs => (.ok a, s, fs)
  bind m k := fun s fs =>
    match m s fs with
    | (.ok a, s', fs') => k a s' fs'
    | (.error e, s', fs') => (.error e, s', fs')

/-- What is decided without looking at the state. -/
def check (a : Except ε α) : Prog σ ε α := fun s fs => (a, s, fs)

/-- What is decided by the state in memory. -/
def inspect (f : σ → Except ε α) : Prog σ ε α := fun s fs => (f s, s, fs)

/-- A change in memory. -/
def modify (f : σ → σ) : Prog σ ε Unit := fun s fs => (.ok (), f s, fs)

/-- The answer of a program as a value. -/
def attempt (m : Prog σ ε α) : Prog σ ε (Except ε α) := fun s fs => (.ok (m s fs).1, (m s fs).2)

/-- The error of a program, in the terms of its caller. -/
def mapError {ε' : Type} (f : ε → ε') (m : Prog σ ε α) : Prog σ ε' α :=
  fun s fs => ((m s fs).1.mapError f, (m s fs).2)

/-- A step that can fail with an error of its own, and then leaves `cut n s`. -/
def step (error : ε) (cut : ℕ → σ → σ) (f : σ → Except ε (α × σ)) : Prog σ ε α := fun s fs =>
  match fs.headD none with
  | some n => (.error error, cut n s, fs.tail)
  | none =>
    match f s with
    | .ok (a, s') => (.ok a, s', fs.tail)
    | .error e => (.error e, s, fs.tail)

/-- A read. -/
def observe (error : ε) (f : σ → Except ε α) : Prog σ ε α :=
  step error (fun _ s => s) fun s => (f s).map fun a => (a, s)

/-- What a change that is made as a whole leaves when it fails after so many parts. -/
def whole (f : σ → Except ε (α × σ)) (n : ℕ) (s : σ) : σ :=
  match n, f s with
  | 0, _ => s
  | _ + 1, .ok (_, s') => s'
  | _ + 1, .error _ => s

/-- A change that is made as a whole. -/
def change (error : ε) (f : σ → Except ε (α × σ)) : Prog σ ε α := step error (whole f) f

theorem bind_apply (m : Prog σ ε α) (k : α → Prog σ ε β) (s : σ) (fs : List Fault) :
    (m >>= k) s fs =
      match m s fs with
      | (.ok a, s', fs') => k a s' fs'
      | (.error e, s', fs') => (.error e, s', fs') := rfl

theorem bind_of_ok {m : Prog σ ε α} {k : α → Prog σ ε β} {s s' : σ} {fs fs' : List Fault} {a : α}
    (h : m s fs = (.ok a, s', fs')) : (m >>= k) s fs = k a s' fs' := by
  rw [bind_apply, h]

theorem bind_of_error {m : Prog σ ε α} {k : α → Prog σ ε β} {s s' : σ} {fs fs' : List Fault} {e : ε}
    (h : m s fs = (.error e, s', fs')) : (m >>= k) s fs = (.error e, s', fs') := by
  rw [bind_apply, h]

@[simp] theorem check_apply (a : Except ε α) (s : σ) (fs : List Fault) : check a s fs = (a, s, fs) := rfl

theorem attempt_of {m : Prog σ ε α} {s s' : σ} {fs fs' : List Fault} {a : Except ε α}
    (h : m s fs = (a, s', fs')) : attempt m s fs = (.ok a, s', fs') := by
  rw [attempt, h]

theorem mapError_of_ok {ε' : Type} {f : ε → ε'} {m : Prog σ ε α} {s s' : σ} {fs fs' : List Fault} {a : α}
    (h : m s fs = (.ok a, s', fs')) : mapError f m s fs = (.ok a, s', fs') := by
  rw [mapError, h]
  rfl

/-- A program whose error is put in other terms succeeds with what it succeeds with by itself. -/
theorem of_mapError_eq_ok {ε' : Type} {f : ε → ε'} {m : Prog σ ε α} {s : σ} {fs : List Fault} {a : α}
    (h : (mapError f m s fs).1 = .ok a) : (m s fs).1 = .ok a := by
  unfold mapError at h
  rcases hm : (m s fs).1 with e | b
  · rw [hm] at h
    cases h
  · rw [hm] at h
    cases h
    rfl

section Nil

variable {error : ε} {cut : ℕ → σ → σ} {s s' : σ}

theorem step_nil_of_ok {f : σ → Except ε (α × σ)} {a : α} (h : f s = .ok (a, s')) :
    step error cut f s [] = (.ok a, s', []) := by
  simp [step, h]

theorem step_nil_of_error {f : σ → Except ε (α × σ)} {e : ε} (h : f s = .error e) :
    step error cut f s [] = (.error e, s, []) := by
  simp [step, h]

theorem change_nil_of_ok {f : σ → Except ε (α × σ)} {a : α} (h : f s = .ok (a, s')) :
    change error f s [] = (.ok a, s', []) := step_nil_of_ok h

theorem change_nil_of_error {f : σ → Except ε (α × σ)} {e : ε} (h : f s = .error e) :
    change error f s [] = (.error e, s, []) := step_nil_of_error h

theorem observe_nil (f : σ → Except ε α) : observe error f s [] = (f s, s, []) := by
  rcases h : f s with e | a
  · exact step_nil_of_error (by simp [h, Except.map])
  · exact step_nil_of_ok (by simp [h, Except.map])

end Nil

/-! ## Where a program stops -/

/-- From states with `P` the program leaves states with `A`, and with `Q v` where it returns `v`. -/
def Triple (P : σ → Prop) (m : Prog σ ε α) (Q : α → σ → Prop) (A : σ → Prop) : Prop :=
  ∀ s fs, P s → A (m s fs).2.1 ∧ ∀ v, (m s fs).1 = .ok v → Q v (m s fs).2.1

namespace Triple

variable {P P' A : σ → Prop} {Q Q' : α → σ → Prop} {R : β → σ → Prop} {m : Prog σ ε α}
  {k : α → Prog σ ε β} {error : ε}

theorem pure {a : α} (hA : ∀ s, P s → A s) (hQ : ∀ s, P s → Q a s) :
    Triple P (Pure.pure a : Prog σ ε α) Q A := by
  intro s fs hs
  refine ⟨hA s hs, ?_⟩
  intro v hv
  cases hv
  exact hQ s hs

theorem check {a : Except ε α} (hA : ∀ s, P s → A s) (hQ : ∀ s v, P s → a = .ok v → Q v s) :
    Triple P (Interrupted.check a) Q A := by
  intro s fs hs
  exact ⟨hA s hs, fun v hv => hQ s v hs hv⟩

theorem inspect {f : σ → Except ε α} (hA : ∀ s, P s → A s) (hQ : ∀ s v, P s → f s = .ok v → Q v s) :
    Triple P (Interrupted.inspect f) Q A := by
  intro s fs hs
  exact ⟨hA s hs, fun v hv => hQ s v hs hv⟩

theorem modify {f : σ → σ} {Q : σ → Prop} (hA : ∀ s, P s → A (f s)) (hQ : ∀ s, P s → Q (f s)) :
    Triple P (Interrupted.modify f : Prog σ ε Unit) (fun _ => Q) A := by
  intro s fs hs
  exact ⟨hA s hs, fun v _ => hQ s hs⟩

/-- What comes after starts where the first ends, and both leave what is left. -/
theorem bind (hm : Triple P m Q A) (hk : ∀ a, Triple (Q a) (k a) R A) : Triple P (m >>= k) R A := by
  intro s fs hs
  obtain ⟨hA, hQ⟩ := hm s fs hs
  rw [bind_apply]
  rcases hms : m s fs with ⟨e | a, s', fs'⟩
  · rw [hms] at hA
    refine ⟨hA, ?_⟩
    intro v hv
    cases hv
  · rw [hms] at hQ
    exact hk a s' fs' (hQ a rfl)

theorem mono (hm : Triple P m Q A) (hP : ∀ s, P' s → P s) (hQ : ∀ v s, Q v s → Q' v s) :
    Triple P' m Q' A := by
  intro s fs hs
  obtain ⟨hA, hv⟩ := hm s fs (hP s hs)
  exact ⟨hA, fun v h => hQ v _ (hv v h)⟩

/-- What the states to start from say whatever they are. -/
theorem of_pure {p : Prop} (hp : ∀ s, P s → p) (hm : p → Triple P m Q A) : Triple P m Q A :=
  fun s fs hs => hm (hp s hs) s fs hs

/-- The rule for each state to start from. -/
theorem of_forall (h : ∀ s, P s → Triple (fun s' => s' = s) m Q A) : Triple P m Q A :=
  fun s fs hs => h s hs s fs rfl

/-- What holds in any case holds where the program returns. -/
theorem always (hm : Triple P m Q A) : Triple P m (fun v s => Q v s ∧ A s) A := by
  intro s fs hs
  obtain ⟨hA, hv⟩ := hm s fs hs
  exact ⟨hA, fun v h => ⟨hv v h, hA⟩⟩

theorem map (hm : Triple P m Q A) (g : α → β) :
    Triple P (g <$> m) (fun b s => ∃ a, b = g a ∧ Q a s) A := by
  show Triple P (m >>= fun a => Pure.pure (g a)) _ A
  refine bind hm.always fun a => pure (fun s hs => hs.2) ?_
  intro s hs
  exact ⟨a, rfl, hs.1⟩

/-- What fails under `attempt` has left what it leaves. -/
theorem attempt (hm : Triple P m Q A) :
    Triple P (Interrupted.attempt m) (fun a s => A s ∧ ∀ v, a = .ok v → Q v s) A := by
  intro s fs hs
  obtain ⟨hA, hQ⟩ := hm s fs hs
  refine ⟨hA, ?_⟩
  intro a ha
  cases ha
  exact ⟨hA, hQ⟩

theorem mapError {ε' : Type} {f : ε → ε'} (hm : Triple P m Q A) :
    Triple P (Interrupted.mapError f m) Q A := by
  intro s fs hs
  obtain ⟨hA, hQ⟩ := hm s fs hs
  refine ⟨hA, ?_⟩
  intro v hv
  exact hQ v (of_mapError_eq_ok hv)

/-- A statement may be cut, fail, or succeed. -/
theorem step {cut : ℕ → σ → σ} {f : σ → Except ε (α × σ)} (hcut : ∀ n s, P s → A (cut n s))
    (herror : ∀ s, P s → A s) (hok : ∀ s v s', P s → f s = .ok (v, s') → A s' ∧ Q v s') :
    Triple P (Interrupted.step error cut f) Q A := by
  intro s fs hs
  unfold Interrupted.step
  rcases fs.headD none with _ | n
  · rcases hf : f s with e | ⟨v, s'⟩
    · exact ⟨herror s hs, fun v hv => by cases hv⟩
    · obtain ⟨hA, hQ⟩ := hok s v s' hs hf
      refine ⟨hA, ?_⟩
      intro w hw
      cases hw
      exact hQ
  · exact ⟨hcut n s hs, fun v hv => by cases hv⟩

/-- A read leaves the state as it is, and returns what it holds. -/
theorem observe {f : σ → Except ε α} (hA : ∀ s, P s → A s) (hQ : ∀ s v, P s → f s = .ok v → Q v s) :
    Triple P (Interrupted.observe error f) Q A := by
  refine step (fun n s hs => hA s hs) hA ?_
  intro s v s' hs hf
  rcases hfs : f s with e | w
  · simp [hfs, Except.map] at hf
  · rw [hfs] at hf
    cases hf
    exact ⟨hA s hs, hQ s v hs hfs⟩

/-- A change that is made as a whole leaves the state as it is or as it makes it. -/
theorem change {f : σ → Except ε (α × σ)} (hA : ∀ s, P s → A s)
    (hok : ∀ s v s', P s → f s = .ok (v, s') → A s' ∧ Q v s') :
    Triple P (Interrupted.change error f) Q A := by
  refine step ?_ hA hok
  intro n s hs
  rcases n with _ | n
  · exact hA s hs
  · rcases hf : f s with e | ⟨v, s'⟩
    · simpa [whole, hf] using hA s hs
    · simpa [whole, hf] using (hok s v s' hs hf).1

end Triple

/-! ## Programs that read -/

/-- From a state the program leaves that state, and returns values with `Q` only. -/
def Reads (s : σ) (m : Prog σ ε α) (Q : α → Prop) : Prop :=
  Triple (fun s' => s' = s) m (fun v s' => s' = s ∧ Q v) fun s' => s' = s

namespace Reads

variable {s : σ} {Q Q' : α → Prop} {m : Prog σ ε α} {error : ε}

theorem pure (a : α) : Reads s (Pure.pure a : Prog σ ε α) fun v => v = a :=
  Triple.pure (fun _ hs => hs) fun _ hs => ⟨hs, rfl⟩

theorem check (a : Except ε α) : Reads s (Interrupted.check a) fun v => a = .ok v :=
  Triple.check (fun _ hs => hs) fun _ _ hs ha => ⟨hs, ha⟩

theorem inspect (f : σ → Except ε α) : Reads s (Interrupted.inspect f) fun v => f s = .ok v :=
  Triple.inspect (fun _ hs => hs) fun _ _ hs hf => ⟨hs, hs ▸ hf⟩

theorem observe (f : σ → Except ε α) : Reads s (Interrupted.observe error f) fun v => f s = .ok v :=
  Triple.observe (fun _ hs => hs) fun _ _ hs hf => ⟨hs, hs ▸ hf⟩

theorem mapError {ε' : Type} {f : ε → ε'} (hm : Reads s m Q) : Reads s (Interrupted.mapError f m) Q :=
  Triple.mapError hm

theorem mono (hm : Reads s m Q) (hQ : ∀ v, Q v → Q' v) : Reads s m Q' :=
  Triple.mono hm (fun _ hs => hs) fun v _ hv => ⟨hv.1, hQ v hv.2⟩

/-- A program that ends with a read. -/
theorem last {R : α → σ → Prop} {A : σ → Prop} (hm : Reads s m Q) (hA : A s) (hR : ∀ v, Q v → R v s) :
    Triple (fun s' => s' = s) m R A := by
  intro s' fs hs
  obtain ⟨hleft, hv⟩ := hm s' fs hs
  refine ⟨hleft ▸ hA, fun v hok => ?_⟩
  rw [(hv v hok).1]
  exact hR v (hv v hok).2

/-- After a read the program goes on from the same state. -/
theorem bind {k : α → Prog σ ε β} {R : β → σ → Prop} {A : σ → Prop} (hm : Reads s m Q) (hA : A s)
    (hk : ∀ a, Q a → Triple (fun s' => s' = s) (k a) R A) : Triple (fun s' => s' = s) (m >>= k) R A := by
  have hstop : Triple (fun s' => s' = s) m (fun v s' => s' = s ∧ Q v) A := by
    intro s' fs hs
    obtain ⟨hleft, hv⟩ := hm s' fs hs
    exact ⟨hleft ▸ hA, hv⟩
  refine Triple.bind hstop fun a => Triple.of_pure (fun _ hs => hs.2) fun ha => ?_
  exact Triple.mono (hk a ha) (fun _ hs => hs.1) fun _ _ h => h

theorem seq {k : α → Prog σ ε β} {R : β → Prop} (hm : Reads s m Q) (hk : ∀ a, Q a → Reads s (k a) R) :
    Reads s (m >>= k) R :=
  hm.bind rfl hk

end Reads

end DiskArcana.Lib.Interrupted
