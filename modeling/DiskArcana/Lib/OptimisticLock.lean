import Mathlib.Logic.Function.Basic
import Mathlib.Tactic.Common

/-!
# Optimistic locks

Writers of one resource with a revision number. A writer that expects the current revision overwrites
the resource, then advances the revision by one, and then records what it wrote. Nothing here keeps two
writers apart: a `Move` says what may happen when writers do not overlap between their write and their
record, however their other steps interleave.

A ticket is a writer that has written: the value, the revision it expected, and how far it has come.
Along moves (`Inv`), each ticket that has advanced has a revision of its own, these revisions are
consecutive, and when nobody is between write and record, the resource holds and the record names the
value of the ticket with the highest revision.
-/

namespace DiskArcana.Lib.OptimisticLock

/-- How far a writer has come. -/
inductive Stage where
  | writing
  | advanced
  | won
  deriving DecidableEq

/-- A writer that has written. Its own revision is the one after the expected one. -/
structure Ticket (ν : Type) where
  value : ν
  expected : ℕ
  stage : Stage

/-- A resource and its writers: what it holds, and what is recorded. -/
structure Lock (ι ν : Type) where
  tickets : ι → Option (Ticket ν)
  revision : ℕ
  holds : ν → Prop
  recorded : ν → Prop

variable {ι ν : Type}

/-- Nobody is between write and record. -/
def Lock.Idle (l : Lock ι ν) : Prop := ∀ i t, l.tickets i = some t → t.stage = .won

section

variable [DecidableEq ι]

/-- One step of writers that do not overlap. -/
inductive Move : Lock ι ν → Lock ι ν → Prop
  | keep {l l' : Lock ι ν} (htickets : l'.tickets = l.tickets) (hrevision : l'.revision = l.revision)
      (hholds : ∀ v, l.holds v → l'.holds v) (hrecorded : ∀ v, l.recorded v → l'.recorded v) :
      Move l l'
  | write {l l' : Lock ι ν} (i : ι) (v : ν) (hidle : l.Idle) (hnew : l.tickets i = none)
      (htickets : l'.tickets = Function.update l.tickets i (some ⟨v, l.revision, .writing⟩))
      (hrevision : l'.revision = l.revision) (hholds : l'.holds v) : Move l l'
  | advance {l l' : Lock ι ν} (i : ι) (t : Ticket ν) (ht : l.tickets i = some t)
      (hstage : t.stage = .writing)
      (htickets : l'.tickets = Function.update l.tickets i (some { t with stage := .advanced }))
      (hrevision : l'.revision = t.expected + 1) (hholds : ∀ v, l.holds v → l'.holds v) : Move l l'
  | record {l l' : Lock ι ν} (i : ι) (t : Ticket ν) (ht : l.tickets i = some t)
      (hstage : t.stage = .advanced)
      (htickets : l'.tickets = Function.update l.tickets i (some { t with stage := .won }))
      (hrevision : l'.revision = l.revision) (hholds : ∀ v, l.holds v → l'.holds v)
      (hrecorded : l'.recorded t.value) : Move l l'

end

/-- What moves keep, from a first revision on. -/
structure Inv (first : ℕ) (l : Lock ι ν) : Prop where
  start : first ≤ l.revision
  base : ∀ i t, l.tickets i = some t → first ≤ t.expected
  alone : ∀ i j t u, l.tickets i = some t → t.stage ≠ .won → l.tickets j = some u →
    u.stage ≠ .won → i = j
  writing : ∀ i t, l.tickets i = some t → t.stage = .writing → l.revision = t.expected
  advanced : ∀ i t, l.tickets i = some t → t.stage = .advanced → l.revision = t.expected + 1
  won : ∀ i t, l.tickets i = some t → t.stage = .won → t.expected < l.revision
  holds : ∀ i t, l.tickets i = some t → t.stage ≠ .won → l.holds t.value
  distinct : ∀ i j t u, l.tickets i = some t → t.stage ≠ .writing → l.tickets j = some u →
    u.stage ≠ .writing → t.expected = u.expected → i = j
  gapless : ∀ k, first ≤ k → k < l.revision →
    ∃ i t, l.tickets i = some t ∧ t.stage ≠ .writing ∧ t.expected = k
  latest : l.Idle → ∀ i t, l.tickets i = some t → t.expected + 1 = l.revision →
    l.holds t.value ∧ l.recorded t.value

/-- Before anybody has written. -/
theorem inv_of_no_tickets {l : Lock ι ν} (h : ∀ i, l.tickets i = none) : Inv l.revision l := by
  have hnone : ∀ i t, l.tickets i ≠ some t := by
    intro i t ht
    rw [h i] at ht
    cases ht
  exact
    { start := Nat.le_refl _
      base := fun i t ht => absurd ht (hnone i t)
      alone := fun i _ t _ ht => absurd ht (hnone i t)
      writing := fun i t ht => absurd ht (hnone i t)
      advanced := fun i t ht => absurd ht (hnone i t)
      won := fun i t ht => absurd ht (hnone i t)
      holds := fun i t ht => absurd ht (hnone i t)
      distinct := fun i _ t _ ht => absurd ht (hnone i t)
      gapless := fun k hk hlt => absurd hlt (Nat.not_lt.mpr hk)
      latest := fun _ i t ht => absurd ht (hnone i t) }

section

variable [DecidableEq ι] {l l' : Lock ι ν} {first : ℕ}

/-- The tickets after one of them has changed. -/
theorem of_update {tickets : ι → Option (Ticket ν)} {i j : ι} {t u : Ticket ν}
    (h : Function.update tickets i (some t) j = some u) :
    (j = i ∧ u = t) ∨ (j ≠ i ∧ tickets j = some u) := by
  by_cases hj : j = i
  · subst hj
    rw [Function.update_self] at h
    exact Or.inl ⟨rfl, (Option.some.inj h).symm⟩
  · rw [Function.update_of_ne hj] at h
    exact Or.inr ⟨hj, h⟩

/-- A ticket that nobody changed is still there. -/
theorem update_of_some {tickets : ι → Option (Ticket ν)} {i j : ι} {t u : Ticket ν} (hj : j ≠ i)
    (h : tickets j = some u) : Function.update tickets i (some t) j = some u := by
  rw [Function.update_of_ne hj]
  exact h

omit [DecidableEq ι] in
theorem Inv.keep (h : Inv first l) (htickets : l'.tickets = l.tickets)
    (hrevision : l'.revision = l.revision) (hholds : ∀ v, l.holds v → l'.holds v)
    (hrecorded : ∀ v, l.recorded v → l'.recorded v) : Inv first l' where
  start := by
    rw [hrevision]
    exact h.start
  base := by
    rw [htickets]
    exact h.base
  alone := by
    rw [htickets]
    exact h.alone
  writing := by
    rw [htickets, hrevision]
    exact h.writing
  advanced := by
    rw [htickets, hrevision]
    exact h.advanced
  won := by
    rw [htickets, hrevision]
    exact h.won
  holds := by
    rw [htickets]
    exact fun i t ht hstage => hholds _ (h.holds i t ht hstage)
  distinct := by
    rw [htickets]
    exact h.distinct
  gapless := by
    rw [htickets, hrevision]
    exact h.gapless
  latest := by
    unfold Lock.Idle
    rw [htickets, hrevision]
    intro hidle i t ht hlast
    obtain ⟨hheld, hrec⟩ := h.latest hidle i t ht hlast
    exact ⟨hholds _ hheld, hrecorded _ hrec⟩

theorem Inv.write (h : Inv first l) {i : ι} {v : ν} (hidle : l.Idle) (hnew : l.tickets i = none)
    (htickets : l'.tickets = Function.update l.tickets i (some ⟨v, l.revision, .writing⟩))
    (hrevision : l'.revision = l.revision) (hholds : l'.holds v) : Inv first l' where
  start := by
    rw [hrevision]
    exact h.start
  base j t ht := by
    rw [htickets] at ht
    rcases of_update ht with ⟨-, rfl⟩ | ⟨-, hold⟩
    · exact h.start
    · exact h.base j t hold
  alone j k t u ht hts hu hus := by
    rw [htickets] at ht hu
    rcases of_update ht with ⟨hj, -⟩ | ⟨-, hold⟩
    · rcases of_update hu with ⟨hk, -⟩ | ⟨-, hold⟩
      · exact hj.trans hk.symm
      · exact absurd (hidle k u hold) hus
    · exact absurd (hidle j t hold) hts
  writing j t ht hts := by
    rw [htickets] at ht
    rcases of_update ht with ⟨-, rfl⟩ | ⟨-, hold⟩
    · exact hrevision
    · rw [hidle j t hold] at hts
      cases hts
  advanced j t ht hts := by
    rw [htickets] at ht
    rcases of_update ht with ⟨-, rfl⟩ | ⟨-, hold⟩
    · cases hts
    · rw [hidle j t hold] at hts
      cases hts
  won j t ht hts := by
    rw [htickets] at ht
    rw [hrevision]
    rcases of_update ht with ⟨-, rfl⟩ | ⟨-, hold⟩
    · cases hts
    · exact h.won j t hold hts
  holds j t ht hts := by
    rw [htickets] at ht
    rcases of_update ht with ⟨-, rfl⟩ | ⟨-, hold⟩
    · exact hholds
    · exact absurd (hidle j t hold) hts
  distinct j k t u ht hts hu hus heq := by
    rw [htickets] at ht hu
    rcases of_update ht with ⟨-, rfl⟩ | ⟨-, hold⟩
    · exact absurd rfl hts
    · rcases of_update hu with ⟨-, rfl⟩ | ⟨-, hold'⟩
      · exact absurd rfl hus
      · exact h.distinct j k t u hold hts hold' hus heq
  gapless k hk hlt := by
    rw [hrevision] at hlt
    obtain ⟨j, t, ht, hts, hexp⟩ := h.gapless k hk hlt
    have hj : j ≠ i := by
      rintro rfl
      rw [hnew] at ht
      cases ht
    refine ⟨j, t, ?_, hts, hexp⟩
    rw [htickets]
    exact update_of_some hj ht
  latest hidle' := by
    -- somebody is writing
    have hself : l'.tickets i = some ⟨v, l.revision, .writing⟩ := by
      rw [htickets, Function.update_self]
    exact nomatch hidle' i _ hself

omit [DecidableEq ι] in
/-- While one ticket is between write and record, the others have won. -/
theorem Inv.won_of_ne (h : Inv first l) {i j : ι} {t u : Ticket ν} (ht : l.tickets i = some t)
    (hts : t.stage ≠ .won) (hu : l.tickets j = some u) (hj : j ≠ i) : u.stage = .won := by
  by_contra hus
  exact hj (h.alone j i u t hu hus ht hts)

theorem Inv.advance (h : Inv first l) {i : ι} {t : Ticket ν} (ht : l.tickets i = some t)
    (hstage : t.stage = .writing)
    (htickets : l'.tickets = Function.update l.tickets i (some { t with stage := .advanced }))
    (hrevision : l'.revision = t.expected + 1) (hholds : ∀ v, l.holds v → l'.holds v) :
    Inv first l' := by
  have hnot : t.stage ≠ .won := by
    rw [hstage]
    exact fun heq => nomatch heq
  have hcur : l.revision = t.expected := h.writing i t ht hstage
  have hother : ∀ {j u}, j ≠ i → l.tickets j = some u → u.stage = .won ∧ u.expected < t.expected := by
    intro j u hj hu
    have hwon := h.won_of_ne ht hnot hu hj
    have hlt := h.won j u hu hwon
    rw [hcur] at hlt
    exact ⟨hwon, hlt⟩
  refine
    { start := ?_
      base := ?_
      alone := ?_
      writing := ?_
      advanced := ?_
      won := ?_
      holds := ?_
      distinct := ?_
      gapless := ?_
      latest := ?_ }
  · have hstart := h.start
    omega
  · intro j u hu
    rw [htickets] at hu
    rcases of_update hu with ⟨-, rfl⟩ | ⟨-, hold⟩
    · exact h.base i t ht
    · exact h.base j u hold
  · intro j k u w hu hus hw hws
    rw [htickets] at hu hw
    rcases of_update hu with ⟨hj, -⟩ | ⟨hj, hold⟩
    · rcases of_update hw with ⟨hk, -⟩ | ⟨hk, hold⟩
      · exact hj.trans hk.symm
      · exact absurd (hother hk hold).1 hws
    · exact absurd (hother hj hold).1 hus
  · intro j u hu hus
    rw [htickets] at hu
    rcases of_update hu with ⟨-, rfl⟩ | ⟨hj, hold⟩
    · cases hus
    · rw [(hother hj hold).1] at hus
      cases hus
  · intro j u hu hus
    rw [htickets] at hu
    rcases of_update hu with ⟨-, rfl⟩ | ⟨hj, hold⟩
    · exact hrevision
    · rw [(hother hj hold).1] at hus
      cases hus
  · intro j u hu hus
    rw [htickets] at hu
    rcases of_update hu with ⟨-, rfl⟩ | ⟨hj, hold⟩
    · cases hus
    · have hlt := (hother hj hold).2
      omega
  · intro j u hu hus
    rw [htickets] at hu
    rcases of_update hu with ⟨-, rfl⟩ | ⟨hj, hold⟩
    · exact hholds _ (h.holds i t ht hnot)
    · exact absurd (hother hj hold).1 hus
  · intro j k u w hu hus hw hws heq
    rw [htickets] at hu hw
    rcases of_update hu with ⟨hj, rfl⟩ | ⟨hj, hold⟩
    · rcases of_update hw with ⟨hk, -⟩ | ⟨hk, hold⟩
      · exact hj.trans hk.symm
      · have hlt := (hother hk hold).2
        simp only at heq
        omega
    · rcases of_update hw with ⟨-, rfl⟩ | ⟨-, hold'⟩
      · have hlt := (hother hj hold).2
        simp only at heq
        omega
      · exact h.distinct j k u w hold hus hold' hws heq
  · intro k hk hlt
    rw [hrevision] at hlt
    rw [htickets]
    by_cases heq : k = t.expected
    · refine ⟨i, _, Function.update_self i _ _, ?_, heq.symm⟩
      exact fun hs => nomatch hs
    · obtain ⟨j, u, hu, hus, hexp⟩ := h.gapless k hk (by omega)
      have hj : j ≠ i := by
        rintro rfl
        rw [ht] at hu
        obtain rfl := Option.some.inj hu
        exact hus hstage
      exact ⟨j, u, update_of_some hj hu, hus, hexp⟩
  · intro hidle
    have hself : l'.tickets i = some { t with stage := .advanced } := by
      rw [htickets, Function.update_self]
    exact nomatch hidle i _ hself

theorem Inv.record (h : Inv first l) {i : ι} {t : Ticket ν} (ht : l.tickets i = some t)
    (hstage : t.stage = .advanced)
    (htickets : l'.tickets = Function.update l.tickets i (some { t with stage := .won }))
    (hrevision : l'.revision = l.revision) (hholds : ∀ v, l.holds v → l'.holds v)
    (hrecorded : l'.recorded t.value) : Inv first l' := by
  have hnot : t.stage ≠ .won := by
    rw [hstage]
    exact fun heq => nomatch heq
  have hcur : l.revision = t.expected + 1 := h.advanced i t ht hstage
  have hidle' : l'.Idle := by
    intro j u hu
    rw [htickets] at hu
    rcases of_update hu with ⟨-, rfl⟩ | ⟨hj, hold⟩
    · rfl
    · exact h.won_of_ne ht hnot hold hj
  -- before the step the ticket was there, with the same value and past its write
  have hbefore : ∀ {j u}, l'.tickets j = some u →
      ∃ u', l.tickets j = some u' ∧ u'.value = u.value ∧ u'.expected = u.expected ∧
        u'.stage ≠ .writing := by
    intro j u hu
    rw [htickets] at hu
    rcases of_update hu with ⟨rfl, rfl⟩ | ⟨hj, hold⟩
    · refine ⟨t, ht, rfl, rfl, ?_⟩
      rw [hstage]
      exact fun heq => nomatch heq
    · refine ⟨u, hold, rfl, rfl, ?_⟩
      rw [h.won_of_ne ht hnot hold hj]
      exact fun heq => nomatch heq
  refine
    { start := ?_
      base := ?_
      alone := fun j _ u _ hu hus => absurd (hidle' j u hu) hus
      writing := ?_
      advanced := ?_
      won := ?_
      holds := fun j u hu hus => absurd (hidle' j u hu) hus
      distinct := ?_
      gapless := ?_
      latest := ?_ }
  · rw [hrevision]
    exact h.start
  · intro j u hu
    obtain ⟨u', hold, -, hexp, -⟩ := hbefore hu
    rw [← hexp]
    exact h.base j u' hold
  · intro j u hu hus
    rw [hidle' j u hu] at hus
    cases hus
  · intro j u hu hus
    rw [hidle' j u hu] at hus
    cases hus
  · intro j u hu hus
    rw [htickets] at hu
    rcases of_update hu with ⟨-, rfl⟩ | ⟨hj, hold⟩
    · simp only
      omega
    · rw [hrevision]
      exact h.won j u hold hus
  · intro j k u w hu hus hw hws heq
    obtain ⟨u', hu', -, huexp, hus'⟩ := hbefore hu
    obtain ⟨w', hw', -, hwexp, hws'⟩ := hbefore hw
    exact h.distinct j k u' w' hu' hus' hw' hws' (by omega)
  · intro k hk hlt
    rw [hrevision] at hlt
    obtain ⟨j, u, hu, hus, hexp⟩ := h.gapless k hk hlt
    rw [htickets]
    by_cases hj : j = i
    · subst hj
      rw [ht] at hu
      obtain rfl := Option.some.inj hu
      refine ⟨j, _, Function.update_self j _ _, ?_, hexp⟩
      exact fun hs => nomatch hs
    · exact ⟨j, u, update_of_some hj hu, hus, hexp⟩
  · intro _ j u hu hlast
    obtain ⟨u', hu', hval, hexp, hus'⟩ := hbefore hu
    have hsame : j = i := by
      refine h.distinct j i u' t hu' hus' ht ?_ (by omega)
      rw [hstage]
      exact fun heq => nomatch heq
    subst hsame
    rw [ht] at hu'
    obtain rfl := Option.some.inj hu'
    rw [← hval]
    exact ⟨hholds _ (h.holds j t ht hnot), hrecorded⟩

/-- **Moves keep the invariant.** -/
theorem Inv.move (h : Inv first l) (hmove : Move l l') : Inv first l' := by
  cases hmove with
  | keep htickets hrevision hholds hrecorded => exact h.keep htickets hrevision hholds hrecorded
  | write i v hidle hnew htickets hrevision hholds =>
      exact h.write hidle hnew htickets hrevision hholds
  | advance i t ht hstage htickets hrevision hholds =>
      exact h.advance ht hstage htickets hrevision hholds
  | record i t ht hstage htickets hrevision hholds hrecorded =>
      exact h.record ht hstage htickets hrevision hholds hrecorded

end

end DiskArcana.Lib.OptimisticLock
