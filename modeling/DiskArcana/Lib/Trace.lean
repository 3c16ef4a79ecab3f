import Mathlib.Data.List.Induction

/-!
# Runs and their histories

A system is a state, events and a total step function. A run is a list of events; its *history* is
the list of (state before, event) pairs. Temporal properties are stated about one step together
with the history before it (`Always`), and proved with an invariant on histories:

* `Always.of_invariant`: if the condition on every step keeps the invariant and gives the
  property, every run whose steps meet the condition has the property at every step;
* `invariant_history`: what every step keeps holds along every run, and so at each moment of its
  history (`exists_of_history_eq`);
* `always_iff_of_invariant`: if, under the invariant, the property and the condition are
  equivalent at each step, they are equivalent over runs;
* `always_iff_along`: the same along runs whose steps all satisfy an assumption;
* `always_of_check`: a decidable property along a concrete run, by evaluation;
* `countP_history_le`: what is spent along a run is paid for by a balance that the run tops up;
* `filterMap_history_filter`: the unwinding rule: deleting events whose effect no later event sees
  changes no output of the others;
* `exists_run_of_step`: a simulation of steps by runs is a simulation of runs by runs;
* `map_history_eq_of_lockstep`: two systems that answer each event alike answer each run alike;
* `exists_change`: a predicate that holds at one moment of a run and fails at its end is ended by
  some step in between;
* `exists_first`: where some event of a run is of a kind, one is the first of its kind.
-/

namespace DiskArcana.Lib

namespace Trace

variable {σ ε : Type} (step : σ → ε → σ)

/-- The state after a run. -/
def run (s : σ) (es : List ε) : σ := es.foldl step s

/-- The steps of a run: the state before each event, and the event. -/
def history (s : σ) : List ε → List (σ × ε)
  | [] => []
  | e :: es => (s, e) :: history (step s e) es

@[simp] theorem run_nil (s : σ) : run step s [] = s := rfl

@[simp] theorem run_cons (s : σ) (e : ε) (es : List ε) :
    run step s (e :: es) = run step (step s e) es := rfl

theorem run_append (s : σ) (es fs : List ε) :
    run step s (es ++ fs) = run step (run step s es) fs :=
  List.foldl_append

@[simp] theorem run_snoc (s : σ) (es : List ε) (e : ε) :
    run step s (es ++ [e]) = step (run step s es) e := by
  rw [run_append]
  rfl

@[simp] theorem history_nil (s : σ) : history step s [] = [] := rfl

theorem history_append (s : σ) (es fs : List ε) :
    history step s (es ++ fs) = history step s es ++ history step (run step s es) fs := by
  induction es generalizing s with
  | nil => rfl
  | cons e es ih =>
      rw [List.cons_append]
      show (s, e) :: history step (step s e) (es ++ fs) = _
      rw [ih]
      rfl

@[simp] theorem history_snoc (s : σ) (es : List ε) (e : ε) :
    history step s (es ++ [e]) = history step s es ++ [(run step s es, e)] :=
  history_append step s es [e]

theorem history_map_snd (s : σ) (es : List ε) : (history step s es).map Prod.snd = es := by
  induction es generalizing s with
  | nil => rfl
  | cons e es ih => exact congrArg (e :: ·) (ih (step s e))

theorem history_append_cons (s : σ) (es fs : List ε) (e : ε) :
    history step s (es ++ e :: fs) =
      history step s es ++ (run step s es, e) :: history step (step (run step s es) e) fs :=
  history_append step s es (e :: fs)

/-- What a history grows by. -/
theorem filterMap_snoc {α β : Type} (f : α → Option β) (l : List α) (a : α) :
    (l ++ [a]).filterMap f = l.filterMap f ++ (f a).toList := by
  rw [List.filterMap_append, List.filterMap_cons, List.filterMap_nil]
  cases f a <;> rfl

/-- Every step of the run satisfies `φ`, which may look at the history before the step. -/
def Always (φ : List (σ × ε) → σ → ε → Prop) (s : σ) (es : List ε) : Prop :=
  ∀ pre e post, es = pre ++ e :: post → φ (history step s pre) (run step s pre) e

variable {step} {φ ψ : List (σ × ε) → σ → ε → Prop} {s : σ} {es : List ε}

theorem always_nil : Always step φ s [] := by
  intro pre e post h
  simp at h

/-- A run has a property at every step when its prefix has and its last step has. -/
theorem always_snoc {e : ε} :
    Always step φ s (es ++ [e]) ↔
      Always step φ s es ∧ φ (history step s es) (run step s es) e := by
  constructor
  · intro h
    refine ⟨fun pre e' post hes => h pre e' (post ++ [e]) ?_, h es e [] rfl⟩
    rw [hes, List.append_assoc, List.cons_append]
  · rintro ⟨h, he⟩ pre e' post hes
    rcases List.eq_nil_or_concat post with rfl | ⟨post, e'', rfl⟩
    · obtain ⟨rfl, hee⟩ := List.append_inj' hes rfl
      cases hee
      exact he
    · rw [List.concat_eq_append, ← List.cons_append, ← List.append_assoc] at hes
      obtain ⟨rfl, -⟩ := List.append_inj' hes rfl
      exact h pre e' post rfl

/-- A run of two steps has a property when its steps have it, one after the other. -/
theorem always_pair {e f : ε} :
    Always step φ s [e, f] ↔ φ [] s e ∧ φ [(s, e)] (step s e) f := by
  rw [show [e, f] = ([] ++ [e]) ++ [f] from rfl, always_snoc, always_snoc]
  exact ⟨fun h => ⟨h.1.2, h.2⟩, fun h => ⟨⟨always_nil, h.1⟩, h.2⟩⟩

/-- Two properties of every step are one property of every step. -/
theorem always_and :
    Always step (fun hist s e => φ hist s e ∧ ψ hist s e) s es ↔
      Always step φ s es ∧ Always step ψ s es := by
  constructor
  · intro h
    exact ⟨fun pre e post hes => (h pre e post hes).1, fun pre e post hes => (h pre e post hes).2⟩
  · rintro ⟨hφ, hψ⟩ pre e post hes
    exact ⟨hφ pre e post hes, hψ pre e post hes⟩

/-- A property that does not look at the history holds at every step of the history. -/
theorem always_of_forall_mem {F : σ → ε → Prop} (h : ∀ x ∈ history step s es, F x.1 x.2) :
    Always step (fun _ s e => F s e) s es := by
  intro pre e post hes
  refine h (run step s pre, e) ?_
  rw [hes, history_append]
  exact List.mem_append_right _ List.mem_cons_self

/-- Check every step of a run, after a history. -/
def checkAlong (step : σ → ε → σ) (p : List (σ × ε) → σ → ε → Bool) (hist : List (σ × ε)) (s : σ) :
    List ε → Bool
  | [] => true
  | e :: es => p hist s e && checkAlong step p (hist ++ [(s, e)]) (step s e) es

/-- What a check of a run finds. -/
theorem of_checkAlong {p : List (σ × ε) → σ → ε → Bool} {hist : List (σ × ε)}
    (h : checkAlong step p hist s es = true) {pre post : List ε} {e : ε}
    (hes : es = pre ++ e :: post) : p (hist ++ history step s pre) (run step s pre) e = true := by
  induction pre generalizing hist s es with
  | nil =>
      subst hes
      rw [history_nil, List.append_nil]
      exact (Bool.and_eq_true_iff.mp h).1
  | cons e' pre ih =>
      subst hes
      have htail := ih (Bool.and_eq_true_iff.mp h).2 rfl
      rwa [List.append_assoc] at htail

/-- A run has a decidable property at every step when a check finds it there. -/
theorem always_of_check [∀ hist s e, Decidable (φ hist s e)]
    (h : checkAlong step (fun hist s e => decide (φ hist s e)) [] s es = true) :
    Always step φ s es := by
  intro pre e post hes
  exact of_decide_eq_true (of_checkAlong h hes)

/-- **Invariant rule.** The hypotheses are about the histories that the runs from `s` have. -/
theorem Always.of_invariant {I : List (σ × ε) → σ → Prop} (h₀ : I [] s)
    (hprop : ∀ es e, I (history step s es) (run step s es) →
      ψ (history step s es) (run step s es) e → φ (history step s es) (run step s es) e)
    (hkeep : ∀ es e, I (history step s es) (run step s es) →
      ψ (history step s es) (run step s es) e →
        I (history step s es ++ [(run step s es, e)]) (step (run step s es) e))
    (h : Always step ψ s es) : Always step φ s es ∧ I (history step s es) (run step s es) := by
  induction es using List.reverseRecOn with
  | nil => exact ⟨always_nil, h₀⟩
  | append_singleton es e ih =>
      obtain ⟨hes, he⟩ := always_snoc.mp h
      obtain ⟨ihφ, ihI⟩ := ih hes
      refine ⟨always_snoc.mpr ⟨ihφ, hprop _ _ ihI he⟩, ?_⟩
      rw [history_snoc, run_snoc]
      exact hkeep _ _ ihI he

/-- A step of the history is an event of the run, taken after those before it. -/
theorem exists_of_history_eq {pre post : List (σ × ε)} {x : σ × ε}
    (h : history step s es = pre ++ x :: post) :
    ∃ es₁ es₂, es = es₁ ++ x.2 :: es₂ ∧ history step s es₁ = pre ∧ run step s es₁ = x.1 := by
  induction pre generalizing s es with
  | nil =>
      cases es with
      | nil => exact nomatch h
      | cons e es =>
          cases h
          exact ⟨[], es, rfl, rfl, rfl⟩
  | cons y pre ih =>
      cases es with
      | nil => exact nomatch h
      | cons e es =>
          obtain ⟨hy, htail⟩ := List.cons.inj h
          obtain ⟨es₁, es₂, rfl, hpre, hx⟩ := ih htail
          refine ⟨e :: es₁, es₂, rfl, ?_, hx⟩
          show (s, e) :: history step (step s e) es₁ = y :: pre
          rw [hy, hpre]

/-- What holds at every step of a run holds at each step of its history. -/
theorem forall_mem_history {F : σ → ε → Prop} (h : Always step (fun _ s e => F s e) s es) :
    ∀ x ∈ history step s es, F x.1 x.2 := by
  intro x hx
  obtain ⟨pre, post, hist⟩ := List.append_of_mem hx
  obtain ⟨es₁, es₂, rfl, -, hs⟩ := exists_of_history_eq hist
  rw [← hs]
  exact h es₁ x.2 es₂ rfl

/-- A prefix of a run has what the run has. -/
theorem Always.of_append {fs : List ε} (h : Always step φ s (es ++ fs)) : Always step φ s es := by
  rintro pre e post rfl
  apply h pre e (post ++ fs)
  simp

/-- What every step keeps holds along every run. -/
theorem invariant_history {I : List (σ × ε) → σ → Prop} (h₀ : I [] s)
    (hkeep : ∀ hist s e, I hist s → I (hist ++ [(s, e)]) (step s e)) (es : List ε) :
    I (history step s es) (run step s es) := by
  induction es using List.reverseRecOn with
  | nil => exact h₀
  | append_singleton es e ih =>
      rw [history_snoc, run_snoc]
      exact hkeep _ _ e ih

/-- **Equivalence of a property and a condition over runs**, from their equivalence at each step
under an invariant that the property keeps. -/
theorem always_iff_of_invariant {I : List (σ × ε) → σ → Prop} (h₀ : I [] s)
    (hiff : ∀ es e, I (history step s es) (run step s es) →
      (φ (history step s es) (run step s es) e ↔ ψ (history step s es) (run step s es) e))
    (hkeep : ∀ es e, I (history step s es) (run step s es) →
      φ (history step s es) (run step s es) e →
        I (history step s es ++ [(run step s es, e)]) (step (run step s es) e)) :
    Always step φ s es ↔ Always step ψ s es := by
  constructor
  · intro h
    exact (Always.of_invariant h₀ (fun es e hI => (hiff es e hI).mp) hkeep h).1
  · intro h
    exact (Always.of_invariant h₀ (fun es e hI => (hiff es e hI).mpr)
      (fun es e hI hψ => hkeep es e hI ((hiff es e hI).mpr hψ)) h).1

/-- The same along runs whose steps all satisfy `F`. -/
theorem always_iff_along {F : List (σ × ε) → σ → ε → Prop} {I : List (σ × ε) → σ → Prop}
    (hF : Always step F s es) (h₀ : I [] s)
    (hiff : ∀ es e, I (history step s es) (run step s es) →
      F (history step s es) (run step s es) e →
        (φ (history step s es) (run step s es) e ↔ ψ (history step s es) (run step s es) e))
    (hkeep : ∀ es e, I (history step s es) (run step s es) →
      F (history step s es) (run step s es) e → φ (history step s es) (run step s es) e →
        I (history step s es ++ [(run step s es, e)]) (step (run step s es) e)) :
    Always step φ s es ↔ Always step ψ s es := by
  have hboth : Always step (fun hist s e => F hist s e ∧ φ hist s e) s es ↔
      Always step (fun hist s e => F hist s e ∧ ψ hist s e) s es :=
    always_iff_of_invariant h₀ (fun es e hI => and_congr_right fun hFe => hiff es e hI hFe)
      (fun es e hI hφ => hkeep es e hI hφ.1 hφ.2)
  rw [always_and, always_and] at hboth
  constructor
  · intro hφ
    exact (hboth.mp ⟨hF, hφ⟩).2
  · intro hψ
    exact (hboth.mpr ⟨hF, hψ⟩).2

/-- **Balance rule.** If each step pays for what it spends out of a balance that only earnings top
up, a run spends at most the initial balance and its earnings. -/
theorem countP_history_le {spends earns : σ × ε → Bool} {balance : σ → ℕ}
    (hstep : ∀ s e, (spends (s, e)).toNat + balance (step s e) ≤
      balance s + (earns (s, e)).toNat) (s : σ) (es : List ε) :
    (history step s es).countP spends + balance (run step s es) ≤
      balance s + (history step s es).countP earns := by
  induction es generalizing s with
  | nil => simp
  | cons e es ih =>
      have hfirst := hstep s e
      have hrest := ih (step s e)
      have hcount : ∀ p : σ × ε → Bool, (history step s (e :: es)).countP p =
          (p (s, e)).toNat + (history step (step s e) es).countP p := by
        intro p
        show ((s, e) :: history step (step s e) es).countP p = _
        rw [List.countP_cons]
        cases p (s, e) <;> simp [Nat.add_comm]
      rw [hcount, hcount, run_cons]
      omega

/-- **Unwinding rule.** The view `V future s s'` says that two states look alike to the kept events
among those to come. If a kept event has the same output in states that look alike and leaves them
alike, and an event that is dropped has no output and changes nothing that a later one sees, deleting
the dropped events changes no output. `Q` is what the run promises of each pair of its steps. -/
theorem filterMap_history_filter {ω : Type} (kept : ε → Bool) (out : σ → ε → Option ω)
    {V : List (σ × ε) → σ → σ → Prop} {Q : σ × ε → σ × ε → Prop}
    (hkeep : ∀ s s' e future, kept e = true → V ((s, e) :: future) s s' →
      out s e = out s' e ∧ V future (step s e) (step s' e))
    (hdrop : ∀ s s' e future, kept e = false → (∀ y ∈ future, Q (s, e) y) →
      V ((s, e) :: future) s s' → out s e = none ∧ V future (step s e) s')
    {s s' : σ} {es : List ε} (hQ : (history step s es).Pairwise Q) (hV : V (history step s es) s s') :
    (history step s es).filterMap (fun x => out x.1 x.2) =
      (history step s' (es.filter kept)).filterMap (fun x => out x.1 x.2) := by
  induction es generalizing s s' with
  | nil => rfl
  | cons e es ih =>
      change ((s, e) :: history step (step s e) es).Pairwise Q at hQ
      change V ((s, e) :: history step (step s e) es) s s' at hV
      show ((s, e) :: history step (step s e) es).filterMap _ = _
      obtain ⟨hhead, htail⟩ := List.pairwise_cons.mp hQ
      rw [List.filter_cons, List.filterMap_cons]
      rcases hk : kept e with _ | _
      · obtain ⟨hout, hnext⟩ := hdrop s s' e _ hk hhead hV
        rw [if_neg Bool.false_ne_true, hout]
        exact ih htail hnext
      · obtain ⟨hout, hnext⟩ := hkeep s s' e _ hk hV
        rw [if_pos rfl]
        show _ = ((s', e) :: history step (step s' e) (es.filter kept)).filterMap _
        rw [List.filterMap_cons, hout, ih htail hnext]

/-- **Simulation.** If every step of one system is matched by a run of another, every run is. -/
theorem exists_run_of_step {τ δ : Type} {step' : τ → δ → τ} {R : σ → τ → Prop}
    (hstep : ∀ s t e, R s t → ∃ fs, R (step s e) (run step' t fs)) {t : τ} (h : R s t)
    (es : List ε) : ∃ fs, R (run step s es) (run step' t fs) := by
  induction es generalizing s t with
  | nil => exact ⟨[], h⟩
  | cons e es ih =>
      obtain ⟨first, hfirst⟩ := hstep s t e h
      obtain ⟨rest, hrest⟩ := ih hfirst
      refine ⟨first ++ rest, ?_⟩
      rw [run_append]
      exact hrest

/-- **Lockstep.** Where each event is answered alike by two systems and keeps a relation between
them, a run is answered alike. -/
theorem map_history_eq_of_lockstep {τ ω : Type} {step' : τ → ε → τ} {out : σ → ε → ω}
    {out' : τ → ε → ω} {P : ε → Prop} {R : σ → τ → Prop}
    (hstep : ∀ s t e, P e → R s t → out s e = out' t e ∧ R (step s e) (step' t e)) {t : τ}
    (h : R s t) (hes : ∀ e ∈ es, P e) :
    (history step s es).map (fun x => out x.1 x.2) =
        (history step' t es).map (fun x => out' x.1 x.2) ∧
      R (run step s es) (run step' t es) := by
  induction es generalizing s t with
  | nil => exact ⟨rfl, h⟩
  | cons e es ih =>
      obtain ⟨hout, hnext⟩ := hstep s t e (hes e List.mem_cons_self) h
      obtain ⟨houts, hend⟩ := ih hnext fun e' he' => hes e' (List.mem_cons_of_mem e he')
      refine ⟨?_, hend⟩
      show out s e :: _ = out' t e :: _
      rw [hout, houts]

/-- A predicate that holds before some step of a run and fails at its end is ended by that step or a
later one. -/
theorem exists_change {Q : σ → Prop} {pre post : List (σ × ε)} {x : σ × ε}
    (hist : history step s es = pre ++ x :: post) (hx : Q x.1) (hend : ¬ Q (run step s es)) :
    ∃ y ∈ x :: post, Q y.1 ∧ ¬ Q (step y.1 y.2) := by
  induction es using List.reverseRecOn generalizing post with
  | nil => simp at hist
  | append_singleton es e ih =>
      rw [history_snoc] at hist
      rw [run_snoc] at hend
      rcases List.eq_nil_or_concat post with rfl | ⟨post, z, rfl⟩
      · obtain ⟨-, hxe⟩ := List.append_inj' hist rfl
        cases hxe
        exact ⟨_, List.mem_singleton_self _, hx, hend⟩
      · rw [List.concat_eq_append, ← List.cons_append, ← List.append_assoc] at hist
        obtain ⟨hpre, hz⟩ := List.append_inj' hist rfl
        cases hz
        by_cases hQ : Q (run step s es)
        · exact ⟨(run step s es, e), by simp, hQ, hend⟩
        · obtain ⟨y, hy, hchange⟩ := ih hpre hQ
          refine ⟨y, ?_, hchange⟩
          rw [List.concat_eq_append, ← List.cons_append]
          exact List.mem_append_left _ hy

theorem exists_first {α : Type} {P : α → Prop} {l : List α} (h : ∃ a ∈ l, P a) :
    ∃ before a rest, l = before ++ a :: rest ∧ P a ∧ ∀ b ∈ before, ¬ P b := by
  induction l with
  | nil => simp at h
  | cons c l ih =>
      by_cases hc : P c
      · exact ⟨[], c, l, rfl, hc, by simp⟩
      · obtain ⟨a, hmem, ha⟩ := h
        rcases List.mem_cons.mp hmem with rfl | hmem
        · exact absurd ha hc
        · obtain ⟨before, a, rest, rfl, hfirst, hbefore⟩ := ih ⟨a, hmem, ha⟩
          exact ⟨c :: before, a, rest, rfl, hfirst, List.forall_mem_cons.mpr ⟨hc, hbefore⟩⟩

end Trace

end DiskArcana.Lib
