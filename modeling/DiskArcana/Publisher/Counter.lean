import DiskArcana.Lib.Trace
import DiskArcana.Publisher.Verifier

/-!
# Concurrent publishers and their counter

Any number of calls of `verify` that got past the signature share the table of counters. Each makes
two steps there, the check and the advance, and the steps of different calls interleave freely.

The stored counter is meant never to go back, and no counter to be accepted twice. The advance is an
unconditional upsert, so both hold exactly as long as no call is overtaken between its two steps by
one with an equal or higher counter (`counterLaw_iff`).
-/

namespace DiskArcana.Publisher

open DiskArcana.Core DiskArcana.Lib DiskArcana.Acl

/-- Where a call stands. -/
inductive Phase where
  /-- The signature is good; the counter is not checked yet. -/
  | signed
  /-- The check passed; the counter is not written yet. -/
  | checked
  | done (answer : Except VerifyError Unit)

/-- A call, with the counter of its proof. -/
structure CounterCall where
  key : CounterKey
  counter : UInt64
  phase : Phase

/-- The table of counters, the calls by an identifier, and the proofs accepted so far. -/
structure CounterState where
  counters : Table CounterKey CounterRow
  calls : Table ℕ CounterCall
  accepted : List (CounterKey × UInt64)

/-- One step of one call. -/
inductive CounterEvent where
  | arrive (id : ℕ) (key : CounterKey) (counter : UInt64)
  | check (id : ℕ) (answer : Except String Unit)
  | advance (id : ℕ) (answer : Except String Unit) (nowMs : ℤ)

/-- The steps of `check_and_advance_counter`. An event that no call is waiting for does nothing.
Source: `publisher/mod.rs`, `check_and_advance_counter` -/
def counterStep (s : CounterState) : CounterEvent → CounterState
  | .arrive id key counter =>
      match s.calls.lookup id with
      | some _ => s
      | none => { s with calls := s.calls.insert id ⟨key, counter, .signed⟩ }
  | .check id answer =>
      match s.calls.lookup id with
      | some ⟨key, counter, .signed⟩ =>
          match fetchMax s.counters answer key counter with
          | .ok () => { s with calls := s.calls.insert id ⟨key, counter, .checked⟩ }
          | .error e => { s with calls := s.calls.insert id ⟨key, counter, .done (.error e)⟩ }
      | _ => s
  | .advance id answer nowMs =>
      match s.calls.lookup id with
      | some ⟨key, counter, .checked⟩ =>
          match Publisher.advance s.counters answer nowMs key counter with
          | (.ok (), counters) =>
              { counters := counters
                calls := s.calls.insert id ⟨key, counter, .done (.ok ())⟩
                accepted := s.accepted ++ [(key, counter)] }
          | (.error e, counters) =>
              { s with
                counters := counters
                calls := s.calls.insert id ⟨key, counter, .done (.error e)⟩ }
      | _ => s

/-- No call is under way. -/
def quiet (counters : Table CounterKey CounterRow) : CounterState := ⟨counters, ∅, []⟩

/-- What a step owes: no counter goes back, and no proof has been accepted twice. -/
structure CounterLaw (s : CounterState) (e : CounterEvent) : Prop where
  monotone : ∀ key, storedCounter s.counters key ≤ storedCounter (counterStep s e).counters key
  once : (counterStep s e).accepted.Nodup

/-- The step passes the check of a call. -/
def Passes (s : CounterState) (e : CounterEvent) (id : ℕ) (key : CounterKey) (c : UInt64) : Prop :=
  e = .check id (.ok ()) ∧ s.calls.lookup id = some ⟨key, c, .signed⟩ ∧
    storedCounter s.counters key < c

/-- The step writes the counter of a call. -/
def Writes (s : CounterState) (e : CounterEvent) (id : ℕ) (key : CounterKey) (c : UInt64) : Prop :=
  (∃ nowMs, e = .advance id (.ok ()) nowMs) ∧ s.calls.lookup id = some ⟨key, c, .checked⟩

/-- Since the check of the call passed, a counter that is not below its own was written. -/
def Overtaken (hist : List (CounterState × CounterEvent)) (id : ℕ) (key : CounterKey) (c : UInt64) :
    Prop :=
  ∃ pre x post, hist = pre ++ x :: post ∧ Passes x.1 x.2 id key c ∧
    ∃ y ∈ post, ∃ id' c', Writes y.1 y.2 id' key c' ∧ c ≤ c'

/-- A call that writes its counter was not overtaken. -/
def NotOvertaken (hist : List (CounterState × CounterEvent)) (s : CounterState) (e : CounterEvent) :
    Prop :=
  ∀ id key c, Writes s e id key c → ¬ Overtaken hist id key c

variable {s : CounterState} {e : CounterEvent} {hist : List (CounterState × CounterEvent)}
  {id id' : ℕ} {key key' : CounterKey} {c c' : UInt64}

/-! ## What one step does -/

/-- A step that neither passes a check nor writes: counters and acceptances stay, no call gets past
its check, and none falls back behind it. -/
structure Idles (s : CounterState) (e : CounterEvent) : Prop where
  writes : ∀ id key c, ¬ Writes s e id key c
  passes : ∀ id key c, ¬ Passes s e id key c
  counters : (counterStep s e).counters = s.counters
  accepted : (counterStep s e).accepted = s.accepted
  checked : ∀ id key c, (counterStep s e).calls.lookup id = some ⟨key, c, .checked⟩ →
    s.calls.lookup id = some ⟨key, c, .checked⟩
  past : ∀ id call, s.calls.lookup id = some call → call.phase ≠ .signed →
    ∃ call', (counterStep s e).calls.lookup id = some call' ∧ call'.phase ≠ .signed

/-- A call that arrives or ends leaves the others alone. -/
theorem idles_of_insert {call : CounterCall} (hw : ∀ id key c, ¬ Writes s e id key c)
    (hp : ∀ id key c, ¬ Passes s e id key c)
    (hstep : counterStep s e = { s with calls := s.calls.insert id call })
    (hcall : (s.calls.lookup id = none ∧ call.phase = .signed) ∨ ∃ answer, call.phase = .done answer) :
    Idles s e := by
  refine ⟨hw, hp, by rw [hstep], by rw [hstep], ?_, ?_⟩
  · intro id' key c h
    rw [hstep, Table.lookup_insert_eq_ite] at h
    split at h
    · rw [Option.some.inj h] at hcall
      simp at hcall
    · exact h
  · intro id' call' h hne
    rw [hstep, Table.lookup_insert_eq_ite]
    split
    · rename_i heq
      subst heq
      rcases hcall with ⟨hnone, -⟩ | ⟨answer, hdone⟩
      · exact nomatch hnone.symm.trans h
      · exact ⟨call, rfl, by simp [hdone]⟩
    · exact ⟨call', h, hne⟩

theorem idles_of_eq (hw : ∀ id key c, ¬ Writes s e id key c)
    (hp : ∀ id key c, ¬ Passes s e id key c) (hstep : counterStep s e = s) : Idles s e := by
  refine ⟨hw, hp, by rw [hstep], by rw [hstep], ?_, ?_⟩
  · intro id key c h
    rwa [hstep] at h
  · intro id call h hne
    rw [hstep]
    exact ⟨call, h, hne⟩

/-- A step writes the counter of a call, passes a check, or idles. -/
theorem counterStep_cases (s : CounterState) (e : CounterEvent) :
    (∃ id key c nowMs, Writes s e id key c ∧
        counterStep s e = ⟨s.counters.insert key ⟨c.toInt64, nowMs⟩,
          s.calls.insert id ⟨key, c, .done (.ok ())⟩, s.accepted ++ [(key, c)]⟩) ∨
      (∃ id key c, Passes s e id key c ∧
        counterStep s e = { s with calls := s.calls.insert id ⟨key, c, .checked⟩ }) ∨
      Idles s e := by
  cases e with
  | arrive id key counter =>
      have hw : ∀ i k c, ¬ Writes s (.arrive id key counter) i k c :=
        fun _ _ _ h => nomatch h.1.choose_spec
      have hp : ∀ i k c, ¬ Passes s (.arrive id key counter) i k c := fun _ _ _ h => nomatch h.1
      right; right
      cases h : s.calls.lookup id with
      | some call => exact idles_of_eq hw hp (by simp [counterStep, h])
      | none => exact idles_of_insert hw hp (by simp [counterStep, h]; rfl) (Or.inl ⟨h, rfl⟩)
  | check id answer =>
      have hw : ∀ i k c, ¬ Writes s (.check id answer) i k c := fun _ _ _ h => nomatch h.1.choose_spec
      by_cases hpass : answer = .ok () ∧ ∃ key c, s.calls.lookup id = some ⟨key, c, .signed⟩ ∧
          storedCounter s.counters key < c
      · obtain ⟨rfl, key, c, hcall, hlt⟩ := hpass
        right; left
        refine ⟨id, key, c, ⟨rfl, hcall, hlt⟩, ?_⟩
        simp [counterStep, hcall, fetchMax_eq_ok_iff.mpr ⟨rfl, hlt⟩]
      · have hp : ∀ i k c, ¬ Passes s (.check id answer) i k c := by
          rintro i k c ⟨he, hcall, hlt⟩
          cases he
          exact hpass ⟨rfl, k, c, hcall, hlt⟩
        right; right
        by_cases hcall : ∃ key c, s.calls.lookup id = some ⟨key, c, .signed⟩
        · obtain ⟨key, c, hcall⟩ := hcall
          cases hf : fetchMax s.counters answer key c with
          | ok u =>
              obtain ⟨rfl, hlt⟩ := fetchMax_eq_ok_iff.mp hf
              exact absurd ⟨rfl, key, c, hcall, hlt⟩ hpass
          | error error =>
              exact idles_of_insert hw hp (by simp [counterStep, hcall, hf]; rfl)
                (Or.inr ⟨.error error, rfl⟩)
        · apply idles_of_eq hw hp
          unfold counterStep
          simp only
          split
          · rename_i key c h
            exact absurd ⟨key, c, h⟩ hcall
          · rfl
  | advance id answer nowMs =>
      have hp : ∀ i k c, ¬ Passes s (.advance id answer nowMs) i k c := fun _ _ _ h => nomatch h.1
      by_cases hwrite : answer = .ok () ∧ ∃ key c, s.calls.lookup id = some ⟨key, c, .checked⟩
      · obtain ⟨rfl, key, c, hcall⟩ := hwrite
        left
        refine ⟨id, key, c, nowMs, ⟨⟨nowMs, rfl⟩, hcall⟩, ?_⟩
        simp [counterStep, hcall, Publisher.advance]
      · have hw : ∀ i k c, ¬ Writes s (.advance id answer nowMs) i k c := by
          rintro i k c ⟨⟨_, he⟩, hcall⟩
          cases he
          exact hwrite ⟨rfl, k, c, hcall⟩
        right; right
        by_cases hcall : ∃ key c, s.calls.lookup id = some ⟨key, c, .checked⟩
        · obtain ⟨key, c, hcall⟩ := hcall
          cases answer with
          | ok u => exact absurd ⟨rfl, key, c, hcall⟩ hwrite
          | error message =>
              exact idles_of_insert hw hp (by simp [counterStep, hcall, Publisher.advance]; rfl)
                (Or.inr ⟨.error (.db message), rfl⟩)
        · apply idles_of_eq hw hp
          unfold counterStep
          simp only
          split
          · rename_i key c h
            exact absurd ⟨key, c, h⟩ hcall
          · rfl

/-- A step writes for one call at most. -/
theorem Writes.unique (h : Writes s e id key c) (h' : Writes s e id' key' c') :
    id' = id ∧ key' = key ∧ c' = c := by
  obtain ⟨⟨nowMs, he⟩, hcall⟩ := h
  obtain ⟨⟨nowMs', he'⟩, hcall'⟩ := h'
  cases he.symm.trans he'
  cases hcall.symm.trans hcall'
  exact ⟨rfl, rfl, rfl⟩

theorem Writes.not_passes (h : Writes s e id key c) : ¬ Passes s e id' key' c' := by
  rintro ⟨he, -, -⟩
  obtain ⟨⟨nowMs, he'⟩, -⟩ := h
  exact nomatch he.symm.trans he'

theorem Passes.not_writes (h : Passes s e id key c) : ¬ Writes s e id' key' c' :=
  fun hw => hw.not_passes h

/-! ## Runs -/

/-- One more step overtakes a call that has passed its check by writing. -/
theorem overtaken_snoc :
    Overtaken (hist ++ [(s, e)]) id key c ↔
      Overtaken hist id key c ∨
        ((∃ x ∈ hist, Passes x.1 x.2 id key c) ∧ ∃ id' c', Writes s e id' key c' ∧ c ≤ c') := by
  constructor
  · rintro ⟨pre, x, post, hsplit, hpass, y, hy, id', c', hwrite, hle⟩
    rcases List.eq_nil_or_concat post with rfl | ⟨post, z, rfl⟩
    · exact nomatch hy
    · rw [List.concat_eq_append, ← List.cons_append, ← List.append_assoc] at hsplit
      obtain ⟨rfl, hz⟩ := List.append_inj' hsplit rfl
      cases hz
      rw [List.concat_eq_append, List.mem_append, List.mem_singleton] at hy
      rcases hy with hy | rfl
      · exact Or.inl ⟨pre, x, post, rfl, hpass, y, hy, id', c', hwrite, hle⟩
      · exact Or.inr ⟨⟨x, by simp, hpass⟩, id', c', hwrite, hle⟩
  · rintro (⟨pre, x, post, rfl, hpass, y, hy, hwrite⟩ | ⟨⟨x, hx, hpass⟩, hwrite⟩)
    · refine ⟨pre, x, post ++ [(s, e)], by simp, hpass, y, ?_, hwrite⟩
      exact List.mem_append_left _ hy
    · obtain ⟨pre, post, rfl⟩ := List.append_of_mem hx
      refine ⟨pre, x, post ++ [(s, e)], by simp, hpass, (s, e), ?_, hwrite⟩
      exact List.mem_append_right _ List.mem_cons_self

/-- What holds along a run that has obeyed the law so far. For a call between its two steps, the
stored counter is below its own exactly while nobody has overtaken it; and a stored counter that is
not below was accepted in this run. -/
structure CounterInv (hist : List (CounterState × CounterEvent)) (s : CounterState) : Prop where
  past : ∀ x ∈ hist, ∀ id key c, Passes x.1 x.2 id key c →
    ∃ call, s.calls.lookup id = some call ∧ call.phase ≠ .signed
  passed : ∀ id key c, s.calls.lookup id = some ⟨key, c, .checked⟩ →
    ∃ x ∈ hist, Passes x.1 x.2 id key c
  below : ∀ id key c, s.calls.lookup id = some ⟨key, c, .checked⟩ →
    (storedCounter s.counters key < c ↔ ¬ Overtaken hist id key c)
  witnessed : ∀ id key c, s.calls.lookup id = some ⟨key, c, .checked⟩ →
    storedCounter s.counters key < c ∨ (key, storedCounter s.counters key) ∈ s.accepted
  accepted_le : ∀ key c, (key, c) ∈ s.accepted → c ≤ storedCounter s.counters key
  nodup : s.accepted.Nodup

theorem counterInv_quiet (counters : Table CounterKey CounterRow) :
    CounterInv [] (quiet counters) := by
  have hcalls : ∀ id, (quiet counters).calls.lookup id = none := fun id => rfl
  refine ⟨?_, ?_, ?_, ?_, ?_, List.nodup_nil⟩
  · intro x hx
    exact nomatch hx
  · intro id key c h
    exact nomatch (hcalls id).symm.trans h
  · intro id key c h
    exact nomatch (hcalls id).symm.trans h
  · intro id key c h
    exact nomatch (hcalls id).symm.trans h
  · intro key c h
    exact nomatch h

/-- The law of a step that writes: the stored counter is below the one written. -/
theorem CounterInv.law_iff_lt (h : CounterInv hist s) {nowMs : ℤ} (hw : Writes s e id key c)
    (hstep : counterStep s e = ⟨s.counters.insert key ⟨c.toInt64, nowMs⟩,
      s.calls.insert id ⟨key, c, .done (.ok ())⟩, s.accepted ++ [(key, c)]⟩) :
    CounterLaw s e ↔ storedCounter s.counters key < c := by
  constructor
  · rintro ⟨hmono, honce⟩
    have hle := hmono key
    rw [hstep] at hle honce
    rw [storedCounter_insert, if_pos rfl] at hle
    rcases h.witnessed id key c hw.2 with hlt | hmem
    · exact hlt
    · apply UInt64.lt_of_le_of_ne hle
      intro heq
      rw [heq] at hmem
      exact (List.nodup_append.mp honce).2.2 _ hmem _ List.mem_cons_self rfl
  · intro hlt
    refine ⟨?_, ?_⟩
    · intro key'
      rw [hstep, storedCounter_insert]
      split
      · rename_i heq
        rw [heq]
        exact UInt64.le_of_lt hlt
      · exact UInt64.le_refl _
    · rw [hstep]
      apply List.Nodup.append h.nodup (List.nodup_singleton _)
      intro x hx hx'
      rw [List.mem_singleton.mp hx'] at hx
      exact absurd (h.accepted_le key c hx) (UInt64.not_le.mpr hlt)

/-- A step that writes no counter obeys the law. -/
theorem CounterInv.law_of_idle (h : CounterInv hist s)
    (hcounters : (counterStep s e).counters = s.counters)
    (haccepted : (counterStep s e).accepted = s.accepted) : CounterLaw s e := by
  refine ⟨?_, ?_⟩
  · intro key
    rw [hcounters]
    exact UInt64.le_refl _
  · rw [haccepted]
    exact h.nodup

/-- Along a run, a step obeys the law exactly when the call it writes for was not overtaken. -/
theorem CounterInv.law_iff (h : CounterInv hist s) : CounterLaw s e ↔ NotOvertaken hist s e := by
  obtain ⟨id, key, c, nowMs, hw, hstep⟩ | ⟨id, key, c, hp, hstep⟩ | hidle := counterStep_cases s e
  · rw [h.law_iff_lt hw hstep, h.below id key c hw.2]
    constructor
    · intro hfree id' key' c' hw'
      obtain ⟨rfl, rfl, rfl⟩ := hw.unique hw'
      exact hfree
    · intro hfree
      exact hfree id key c hw
  · have hlaw : CounterLaw s e := h.law_of_idle (by rw [hstep]) (by rw [hstep])
    exact iff_of_true hlaw fun id' key' c' hw => absurd hw hp.not_writes
  · have hlaw : CounterLaw s e := h.law_of_idle hidle.counters hidle.accepted
    exact iff_of_true hlaw fun id' key' c' hw => absurd hw (hidle.writes id' key' c')

/-- Without a write nobody is overtaken. -/
theorem overtaken_snoc_of_not_writes (hw : ∀ id key c, ¬ Writes s e id key c) :
    Overtaken (hist ++ [(s, e)]) id key c ↔ Overtaken hist id key c := by
  rw [overtaken_snoc]
  constructor
  · rintro (h | ⟨-, id', c', hwrite, -⟩)
    · exact h
    · exact absurd hwrite (hw id' key c')
  · exact Or.inl

/-- A write that obeys the law keeps the invariant. -/
theorem CounterInv.of_writes (h : CounterInv hist s) {nowMs : ℤ} (hw : Writes s e id key c)
    (hstep : counterStep s e = ⟨s.counters.insert key ⟨c.toInt64, nowMs⟩,
      s.calls.insert id ⟨key, c, .done (.ok ())⟩, s.accepted ++ [(key, c)]⟩)
    (hlaw : CounterLaw s e) : CounterInv (hist ++ [(s, e)]) (counterStep s e) := by
  have hlt : storedCounter s.counters key < c := (h.law_iff_lt hw hstep).mp hlaw
  -- a call between its two steps is another one, and stands where it stood
  have hother : ∀ id' key' c', (counterStep s e).calls.lookup id' = some ⟨key', c', .checked⟩ →
      s.calls.lookup id' = some ⟨key', c', .checked⟩ := by
    intro id' key' c' hcall
    rw [hstep, Table.lookup_insert_eq_ite] at hcall
    split at hcall
    · exact nomatch hcall
    · exact hcall
  have hstored : ∀ key', storedCounter (counterStep s e).counters key' =
      if key' = key then c else storedCounter s.counters key' := by
    intro key'
    rw [hstep]
    exact storedCounter_insert _ _ _ _ _
  have haccepted : (counterStep s e).accepted = s.accepted ++ [(key, c)] := by rw [hstep]
  refine ⟨?_, ?_, ?_, ?_, ?_, hlaw.once⟩
  · intro x hx id' key' c' hpass
    rcases List.mem_append.mp hx with hx | hx
    · obtain ⟨call, hcall, hphase⟩ := h.past x hx id' key' c' hpass
      rw [hstep, Table.lookup_insert_eq_ite]
      split
      · exact ⟨_, rfl, by simp⟩
      · exact ⟨call, hcall, hphase⟩
    · rw [List.mem_singleton.mp hx] at hpass
      exact absurd hpass hw.not_passes
  · intro id' key' c' hcall
    obtain ⟨x, hx, hpass⟩ := h.passed id' key' c' (hother id' key' c' hcall)
    exact ⟨x, List.mem_append_left _ hx, hpass⟩
  · intro id' key' c' hcall
    have hbelow := h.below id' key' c' (hother id' key' c' hcall)
    have hpassed := h.passed id' key' c' (hother id' key' c' hcall)
    rw [hstored, overtaken_snoc]
    by_cases hkey : key' = key
    · subst hkey
      rw [if_pos rfl]
      constructor
      · rintro hcc (hover | ⟨-, id'', c'', hw', hle⟩)
        · exact hbelow.mp (UInt64.lt_trans hlt hcc) hover
        · obtain ⟨-, -, rfl⟩ := hw.unique hw'
          exact UInt64.not_le.mpr hcc hle
      · intro hfree
        apply UInt64.not_le.mp
        intro hle
        exact hfree (Or.inr ⟨hpassed, id, c, hw, hle⟩)
    · rw [if_neg hkey, hbelow]
      constructor
      · rintro hfree (hover | ⟨-, id'', c'', hw', -⟩)
        · exact hfree hover
        · exact hkey (hw.unique hw').2.1
      · intro hfree hover
        exact hfree (Or.inl hover)
  · intro id' key' c' hcall
    rw [hstored, haccepted]
    by_cases hkey : key' = key
    · subst hkey
      rw [if_pos rfl]
      exact Or.inr (List.mem_append_right _ List.mem_cons_self)
    · rw [if_neg hkey]
      exact (h.witnessed id' key' c' (hother id' key' c' hcall)).imp_right (List.mem_append_left _)
  · intro key' c' hmem
    rw [haccepted, List.mem_append, List.mem_singleton] at hmem
    rcases hmem with hmem | hmem
    · exact UInt64.le_trans (h.accepted_le key' c' hmem) (hlaw.monotone key')
    · cases hmem
      rw [hstored, if_pos rfl]
      exact UInt64.le_refl _

/-- Passing a check keeps the invariant: nothing has been written since. -/
theorem CounterInv.of_passes (h : CounterInv hist s) (hp : Passes s e id key c)
    (hstep : counterStep s e = { s with calls := s.calls.insert id ⟨key, c, .checked⟩ }) :
    CounterInv (hist ++ [(s, e)]) (counterStep s e) := by
  -- the call has not passed before
  have hfirst : ∀ key' c', ¬ ∃ x ∈ hist, Passes x.1 x.2 id key' c' := by
    rintro key' c' ⟨x, hx, hpass⟩
    obtain ⟨call, hcall, hphase⟩ := h.past x hx id key' c' hpass
    cases hp.2.1.symm.trans hcall
    exact hphase rfl
  have hcalls : ∀ id' key' c', (counterStep s e).calls.lookup id' = some ⟨key', c', .checked⟩ →
      (id' = id ∧ key' = key ∧ c' = c) ∨ s.calls.lookup id' = some ⟨key', c', .checked⟩ := by
    intro id' key' c' hcall
    rw [hstep, Table.lookup_insert_eq_ite] at hcall
    split at hcall
    · rename_i heq
      cases hcall
      exact Or.inl ⟨heq, rfl, rfl⟩
    · exact Or.inr hcall
  have hcounters : (counterStep s e).counters = s.counters := by rw [hstep]
  have haccepted : (counterStep s e).accepted = s.accepted := by rw [hstep]
  have hover := @overtaken_snoc_of_not_writes s e hist
  refine ⟨?_, ?_, ?_, ?_, ?_, ?_⟩
  · intro x hx id' key' c' hpass
    rw [hstep, Table.lookup_insert_eq_ite]
    split
    · exact ⟨_, rfl, by simp⟩
    · rename_i hne
      rcases List.mem_append.mp hx with hx | hx
      · exact h.past x hx id' key' c' hpass
      · rw [List.mem_singleton.mp hx] at hpass
        cases hp.1.symm.trans hpass.1
        exact absurd rfl hne
  · intro id' key' c' hcall
    rcases hcalls id' key' c' hcall with ⟨rfl, rfl, rfl⟩ | hold
    · exact ⟨(s, e), by simp, hp⟩
    · obtain ⟨x, hx, hpass⟩ := h.passed id' key' c' hold
      exact ⟨x, List.mem_append_left _ hx, hpass⟩
  · intro id' key' c' hcall
    rw [hcounters, hover fun _ _ _ => hp.not_writes]
    rcases hcalls id' key' c' hcall with ⟨rfl, rfl, rfl⟩ | hold
    · apply iff_of_true hp.2.2
      rintro ⟨pre, x, post, rfl, hpass, -⟩
      exact hfirst key' c' ⟨x, by simp, hpass⟩
    · exact h.below id' key' c' hold
  · intro id' key' c' hcall
    rw [hcounters, haccepted]
    rcases hcalls id' key' c' hcall with ⟨rfl, rfl, rfl⟩ | hold
    · exact Or.inl hp.2.2
    · exact h.witnessed id' key' c' hold
  · rw [hcounters, haccepted]
    exact h.accepted_le
  · rw [haccepted]
    exact h.nodup

/-- A step that idles keeps the invariant. -/
theorem CounterInv.of_idles (h : CounterInv hist s) (hidle : Idles s e) :
    CounterInv (hist ++ [(s, e)]) (counterStep s e) := by
  refine ⟨?_, ?_, ?_, ?_, ?_, ?_⟩
  · intro x hx id key c hpass
    rcases List.mem_append.mp hx with hx | hx
    · obtain ⟨call, hcall, hphase⟩ := h.past x hx id key c hpass
      exact hidle.past id call hcall hphase
    · rw [List.mem_singleton.mp hx] at hpass
      exact absurd hpass (hidle.passes id key c)
  · intro id key c hcall
    obtain ⟨x, hx, hpass⟩ := h.passed id key c (hidle.checked id key c hcall)
    exact ⟨x, List.mem_append_left _ hx, hpass⟩
  · intro id key c hcall
    rw [hidle.counters, overtaken_snoc_of_not_writes hidle.writes]
    exact h.below id key c (hidle.checked id key c hcall)
  · intro id key c hcall
    rw [hidle.counters, hidle.accepted]
    exact h.witnessed id key c (hidle.checked id key c hcall)
  · rw [hidle.counters, hidle.accepted]
    exact h.accepted_le
  · rw [hidle.accepted]
    exact h.nodup

/-- Every interleaving of any number of calls, over any table of counters: the stored counters never
go back and no proof is accepted twice exactly when no call is overtaken between its check and its
write by a call of the same publisher and share with an equal or higher counter. -/
theorem counterLaw_iff (counters : Table CounterKey CounterRow) (events : List CounterEvent) :
    Trace.Always counterStep (fun _ s e => CounterLaw s e) (quiet counters) events ↔
      Trace.Always counterStep NotOvertaken (quiet counters) events := by
  apply Trace.always_iff_of_invariant (counterInv_quiet counters)
  · intro es e h
    exact h.law_iff
  · intro es e h hlaw
    obtain ⟨id, key, c, nowMs, hw, hstep⟩ | ⟨id, key, c, hp, hstep⟩ | hidle :=
      counterStep_cases (Trace.run counterStep (quiet counters) es) e
    · exact h.of_writes hw hstep hlaw
    · exact h.of_passes hp hstep
    · exact h.of_idles hidle

/-! ## A counter that goes back -/

/-- Two proofs of one publisher, with the counters 6 and 5. Both are checked before either is
written, and the higher is written first. -/
def crossing (fp : CertFingerprint) : List CounterEvent :=
  [.arrive 0 (fp, "media") 6, .arrive 1 (fp, "media") 5, .check 0 (.ok ()), .check 1 (.ok ()),
    .advance 0 (.ok ()) 0, .advance 1 (.ok ()) 1]

/-- The stored counter falls from 6 to 5. -/
theorem crossing_goes_back :
    ¬ Trace.Always counterStep (fun _ s e => CounterLaw s e) (quiet ∅) (crossing zeroDigest) := by
  intro h
  have hlaw := h [.arrive 0 (zeroDigest, "media") 6, .arrive 1 (zeroDigest, "media") 5,
    .check 0 (.ok ()), .check 1 (.ok ()), .advance 0 (.ok ()) 0] (.advance 1 (.ok ()) 1) [] rfl
  exact absurd (hlaw.monotone (zeroDigest, "media")) (by decide +kernel)

end DiskArcana.Publisher
