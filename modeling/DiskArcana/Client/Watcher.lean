import DiskArcana.Core.Types
import DiskArcana.Lib.Table
import DiskArcana.Lib.Trace

/-!
# The debouncer of the watcher

`disk-client/src/watcher/mod.rs`: events are kept by path until nothing has been heard of the path
for a window of time. `push` keeps the later event and sets the deadline anew, `drainExpired` gives
out what is due, in the order of the paths. Times are numbers.

An event awaits its drain from its push on, until its path is pushed again or a drain comes that is
a window late or more (`Awaits`). A drain gives out what awaits it, once
(`debouncer_loses_nothing`).
-/

namespace DiskArcana.Client.Watcher

open DiskArcana.Core DiskArcana.Lib

/-- Source: `watcher/mod.rs`, `FsEvent` -/
inductive FsEvent where
  | change (path : Path)
  | delete (path : Path)
  deriving DecidableEq

/-- Source: `watcher/mod.rs`, `FsEvent::path` -/
def FsEvent.path : FsEvent → Path
  | .change p => p
  | .delete p => p

/-- Source: `watcher/mod.rs`, `PendingEntry` -/
structure PendingEntry where
  event : FsEvent
  deadline : ℕ
  deriving DecidableEq

/-- Source: `watcher/mod.rs`, `merge` -/
def merge : FsEvent → FsEvent → FsEvent
  | .change _, .change p => .change p
  | .change _, .delete p => .delete p
  | .delete _, .change p => .change p
  | .delete _, .delete p => .delete p

@[simp] theorem merge_eq (prior next : FsEvent) : merge prior next = next := by
  cases prior <;> cases next <;> rfl

/-- Source: `watcher/mod.rs`, `FsEventDebouncer` -/
structure FsEventDebouncer where
  window : ℕ
  pending : Table Path PendingEntry

namespace FsEventDebouncer

/-- Source: `watcher/mod.rs`, `FsEventDebouncer::new` -/
def new (window : ℕ) : FsEventDebouncer := ⟨window, ∅⟩

variable (d : FsEventDebouncer)

/-- Source: `watcher/mod.rs`, `next_deadline` -/
def nextDeadline : Option ℕ := (d.pending.entries.map fun e => e.2.deadline).min?

/-- Source: `watcher/mod.rs`, `push` -/
def push (event : FsEvent) (now : ℕ) : FsEventDebouncer :=
  let deadline := now + d.window
  match d.pending.lookup event.path with
  | some slot => { d with pending := d.pending.insert event.path ⟨merge slot.event event, deadline⟩ }
  | none => { d with pending := d.pending.insert event.path ⟨event, deadline⟩ }

/-- The paths that are due, in order. -/
def expiredKeys (now : ℕ) : List Path :=
  ((d.pending.entries.filter fun e => e.2.deadline ≤ now).map Sigma.fst).mergeSort

/-- Take the events at some paths out of the buffer. -/
def removeKeys : List Path → Table Path PendingEntry → List FsEvent × Table Path PendingEntry
  | [], pending => ([], pending)
  | k :: keys, pending =>
    match pending.lookup k with
    | some entry =>
      let (events, pending) := removeKeys keys (pending.erase k)
      (entry.event :: events, pending)
    -- the keys come from the buffer itself
    | none => removeKeys keys pending

/-- Source: `watcher/mod.rs`, `drain_expired` -/
def drainExpired (now : ℕ) : List FsEvent × FsEventDebouncer :=
  let (events, pending) := removeKeys (d.expiredKeys now) d.pending
  (events, { d with pending })

/-- Source: `watcher/mod.rs`, `drain_all` -/
def drainAll : List FsEvent × FsEventDebouncer :=
  ((d.pending.entries.mergeSort fun a b => a.1 ≤ b.1).map fun e => e.2.event, { d with pending := ∅ })

end FsEventDebouncer

/-- What is done with the debouncer. -/
inductive WatchOp where
  | push (event : FsEvent) (now : ℕ)
  | drain (now : ℕ)
  | flush
  deriving DecidableEq

/-- What an operation gives out, and the debouncer after it. -/
def step (d : FsEventDebouncer) : WatchOp → List FsEvent × FsEventDebouncer
  | .push event now => ([], d.push event now)
  | .drain now => d.drainExpired now
  | .flush => d.drainAll

/-- A debouncer after some operations. -/
def after (window : ℕ) (ops : List WatchOp) : FsEventDebouncer :=
  Trace.run (fun d op => (step d op).2) (.new window) ops

/-! ## What a drain takes -/

namespace FsEventDebouncer

variable {d : FsEventDebouncer} {now : ℕ} {p : Path}

theorem pending_push (event : FsEvent) (now : ℕ) :
    (d.push event now).pending = d.pending.insert event.path ⟨event, now + d.window⟩ := by
  unfold push
  rcases d.pending.lookup event.path with _ | slot
  · rfl
  · simp only [merge_eq]

theorem mem_expiredKeys :
    p ∈ d.expiredKeys now ↔ ∃ entry, d.pending.lookup p = some entry ∧ entry.deadline ≤ now := by
  simp only [expiredKeys, List.mem_mergeSort, List.mem_map, List.mem_filter, decide_eq_true_eq]
  constructor
  · rintro ⟨⟨q, entry⟩, ⟨hmem, hle⟩, rfl⟩
    exact ⟨entry, Table.mem_entries_iff.mp hmem, hle⟩
  · rintro ⟨entry, hlookup, hle⟩
    exact ⟨⟨p, entry⟩, ⟨Table.mem_entries_iff.mpr hlookup, hle⟩, rfl⟩

theorem nodup_expiredKeys : (d.expiredKeys now).Nodup := by
  apply (List.mergeSort_perm _ _).nodup_iff.mpr
  exact List.Nodup.sublist (List.filter_sublist.map Sigma.fst) d.pending.nodupKeys

/-- Taking out different paths gives the events at them and leaves the others. -/
theorem removeKeys_eq {keys : List Path} (pending : Table Path PendingEntry) (hnodup : keys.Nodup) :
    (removeKeys keys pending).1 = keys.filterMap (fun k => (pending.lookup k).map PendingEntry.event) ∧
      ∀ p, (removeKeys keys pending).2.lookup p = if p ∈ keys then none else pending.lookup p := by
  induction keys generalizing pending with
  | nil => exact ⟨rfl, fun p => by simp [removeKeys]⟩
  | cons k keys ih =>
      obtain ⟨hk, hnodup⟩ := List.nodup_cons.mp hnodup
      rcases hentry : pending.lookup k with _ | entry
      · obtain ⟨hevents, hleft⟩ := ih pending hnodup
        simp only [removeKeys, hentry]
        refine ⟨by rw [List.filterMap_cons_none (by rw [hentry]; rfl), hevents], ?_⟩
        intro q
        rw [hleft q]
        by_cases hq : q = k
        · subst hq
          simp [hk, hentry]
        · simp [hq]
      · obtain ⟨hevents, hleft⟩ := ih (pending.erase k) hnodup
        have hother : ∀ q ∈ keys, (pending.erase k).lookup q = pending.lookup q := by
          intro q hq
          apply AList.lookup_erase_ne
          rintro rfl
          exact hk hq
        simp only [removeKeys, hentry]
        refine ⟨?_, ?_⟩
        · rw [List.filterMap_cons_some (by rw [hentry]; rfl), hevents]
          congr 1
          apply List.filterMap_congr
          intro q hq
          rw [hother q hq]
        · intro q
          rw [hleft q]
          by_cases hq : q = k
          · subst hq
            simp [hk]
          · simp [hq, AList.lookup_erase_ne hq]

/-- The entry at a path after a drain. -/
theorem lookup_drainExpired (d : FsEventDebouncer) (now : ℕ) (p : Path) :
    (d.drainExpired now).2.pending.lookup p =
      (d.pending.lookup p).filter fun entry => now < entry.deadline := by
  have hnodup : (d.expiredKeys now).Nodup := nodup_expiredKeys
  have hleft := (removeKeys_eq d.pending hnodup).2 p
  refine hleft.trans ?_
  rcases hentry : d.pending.lookup p with _ | entry
  · simp
  · by_cases hdue : entry.deadline ≤ now
    · rw [if_pos (mem_expiredKeys.mpr ⟨entry, hentry, hdue⟩)]
      simp [Option.filter, hdue]
    · have hnot : p ∉ d.expiredKeys now := by
        rw [mem_expiredKeys]
        rintro ⟨entry', hentry', hdue'⟩
        rw [hentry] at hentry'
        cases hentry'
        exact hdue hdue'
      rw [if_neg hnot]
      simp [Option.filter, Nat.lt_of_not_le hdue]

theorem drainExpired_fst (d : FsEventDebouncer) (now : ℕ) :
    (d.drainExpired now).1 =
      (d.expiredKeys now).filterMap fun k => (d.pending.lookup k).map PendingEntry.event :=
  (removeKeys_eq d.pending nodup_expiredKeys).1

/-- Until the deadline the watcher sleeps for there is nothing to give out, and from then on there
is. -/
theorem expiredKeys_eq_nil_iff :
    d.expiredKeys now = [] ↔ ∀ deadline, d.nextDeadline = some deadline → now < deadline := by
  rw [List.eq_nil_iff_forall_not_mem]
  constructor
  · intro hnone deadline hnext
    obtain ⟨hmem, -⟩ := List.min?_eq_some_iff.mp hnext
    obtain ⟨⟨p, entry⟩, hentry, rfl⟩ := List.mem_map.mp hmem
    by_contra hdue
    exact hnone p (mem_expiredKeys.mpr ⟨entry, Table.mem_entries_iff.mp hentry, not_lt.mp hdue⟩)
  · intro hnext p hp
    obtain ⟨entry, hentry, hdue⟩ := mem_expiredKeys.mp hp
    have hmem : entry.deadline ∈ d.pending.entries.map fun e => e.2.deadline :=
      List.mem_map.mpr ⟨⟨p, entry⟩, Table.mem_entries_iff.mpr hentry, rfl⟩
    obtain ⟨deadline, hmin⟩ := Option.isSome_iff_exists.mp (List.isSome_min?_of_mem hmem)
    have hlater := hnext deadline hmin
    have hle := (List.min?_eq_some_iff.mp hmin).2 _ hmem
    omega

/-- Events are kept at their paths. -/
def Filed (d : FsEventDebouncer) : Prop :=
  ∀ p entry, d.pending.lookup p = some entry → entry.event.path = p

/-- A drain gives out one event for each path that is due, in the order of the paths. -/
theorem map_path_drainExpired (h : d.Filed) :
    (d.drainExpired now).1.map FsEvent.path = d.expiredKeys now := by
  rw [drainExpired_fst, List.map_filterMap]
  have hpath : ∀ k ∈ d.expiredKeys now,
      ((d.pending.lookup k).map PendingEntry.event).map FsEvent.path = some k := by
    intro k hk
    obtain ⟨entry, hentry, -⟩ := mem_expiredKeys.mp hk
    rw [hentry]
    exact congrArg some (h k entry hentry)
  rw [List.filterMap_congr hpath, List.filterMap_some]

/-- What a drain gives out: the events that are due. -/
theorem mem_drainExpired_iff (h : d.Filed) {e : FsEvent} :
    e ∈ (d.drainExpired now).1 ↔
      ∃ deadline, d.pending.lookup e.path = some ⟨e, deadline⟩ ∧ deadline ≤ now := by
  rw [drainExpired_fst, List.mem_filterMap]
  constructor
  · rintro ⟨k, hk, hevent⟩
    obtain ⟨entry, hentry, hdue⟩ := mem_expiredKeys.mp hk
    rw [hentry] at hevent
    obtain rfl := Option.some.inj hevent
    rw [h k entry hentry]
    exact ⟨entry.deadline, hentry, hdue⟩
  · rintro ⟨deadline, hentry, hdue⟩
    exact ⟨e.path, mem_expiredKeys.mpr ⟨_, hentry, hdue⟩, by rw [hentry]; rfl⟩

/-- What a flush gives out: every event there is. -/
theorem mem_drainAll_iff (h : d.Filed) {e : FsEvent} :
    e ∈ d.drainAll.1 ↔ ∃ deadline, d.pending.lookup e.path = some ⟨e, deadline⟩ := by
  simp only [drainAll, List.mem_map, List.mem_mergeSort]
  constructor
  · rintro ⟨⟨k, entry⟩, hmem, rfl⟩
    have hentry := Table.mem_entries_iff.mp hmem
    refine ⟨entry.deadline, ?_⟩
    rw [h k entry hentry]
    exact hentry
  · rintro ⟨deadline, hentry⟩
    exact ⟨⟨e.path, ⟨e, deadline⟩⟩, Table.mem_entries_iff.mpr hentry, rfl⟩

theorem map_path_drainAll (h : d.Filed) :
    d.drainAll.1.map FsEvent.path =
      (d.pending.entries.mergeSort fun a b => a.1 ≤ b.1).map Sigma.fst := by
  rw [drainAll, List.map_map]
  apply List.map_congr_left
  rintro ⟨k, entry⟩ hmem
  rw [List.mem_mergeSort] at hmem
  exact h k entry (Table.mem_entries_iff.mp hmem)

end FsEventDebouncer

/-! ## Runs -/

def PushesAt (p : Path) : WatchOp → Prop
  | .push e _ => e.path = p
  | _ => False

/-- The drains that are late enough for what was pushed at a time. -/
def LateFor (window pushed : ℕ) : WatchOp → Prop
  | .push _ _ => False
  | .drain now => pushed + window ≤ now
  | .flush => True

/-- The event was pushed at that time, and neither a push at its path nor a late drain came
since. -/
def Awaits (window : ℕ) (ops : List WatchOp) (e : FsEvent) (pushed : ℕ) : Prop :=
  ∃ before since, ops = before ++ .push e pushed :: since ∧
    ∀ op ∈ since, ¬ PushesAt e.path op ∧ ¬ LateFor window pushed op

variable {window pushed : ℕ} {ops : List WatchOp} {op : WatchOp} {e : FsEvent}

theorem awaits_concat : Awaits window (ops ++ [op]) e pushed ↔
    op = .push e pushed ∨
      Awaits window ops e pushed ∧ ¬ PushesAt e.path op ∧ ¬ LateFor window pushed op := by
  constructor
  · rintro ⟨before, since, hops, hquiet⟩
    rcases since.eq_nil_or_concat' with rfl | ⟨since, last, rfl⟩
    · left
      exact List.singleton_inj.mp (List.append_inj' hops rfl).2
    · right
      have hsplit : ops ++ [op] = (before ++ .push e pushed :: since) ++ [last] := by
        rw [hops, List.append_assoc, List.cons_append]
      obtain ⟨hbefore, hlast⟩ := List.append_inj' hsplit rfl
      obtain rfl := List.singleton_inj.mp hlast
      exact ⟨⟨before, since, hbefore, fun o ho => hquiet o (List.mem_append_left _ ho)⟩,
        hquiet op (List.mem_append_right _ (List.mem_singleton_self op))⟩
  · rintro (rfl | ⟨⟨before, since, rfl, hquiet⟩, hop⟩)
    · exact ⟨ops, [], rfl, by simp⟩
    · refine ⟨before, since ++ [op], by simp, ?_⟩
      intro o ho
      rcases List.mem_append.mp ho with ho | ho
      · exact hquiet o ho
      · rw [List.mem_singleton.mp ho]
        exact hop

theorem after_concat (window : ℕ) (ops : List WatchOp) (op : WatchOp) :
    after window (ops ++ [op]) = (step (after window ops) op).2 :=
  Trace.run_snoc ..

@[simp] theorem window_step (d : FsEventDebouncer) (op : WatchOp) :
    (step d op).2.window = d.window := by
  rcases op with ⟨event, now⟩ | now | _
  · simp only [step, FsEventDebouncer.push]
    split <;> rfl
  · rfl
  · rfl

@[simp] theorem window_after (window : ℕ) (ops : List WatchOp) :
    (after window ops).window = window := by
  induction ops using List.reverseRecOn with
  | nil => rfl
  | append_singleton ops op ih => rw [after_concat, window_step, ih]

/-- The buffer holds what is awaited, with the time at which the wait is over. -/
theorem lookup_after (window : ℕ) (ops : List WatchOp) (p : Path) (entry : PendingEntry) :
    (after window ops).pending.lookup p = some entry ↔
      ∃ pushed, entry.deadline = pushed + window ∧ entry.event.path = p ∧
        Awaits window ops entry.event pushed := by
  induction ops using List.reverseRecOn generalizing p entry with
  | nil =>
      constructor
      · intro h
        cases h
      · rintro ⟨pushed, -, -, before, since, hops, -⟩
        simp at hops
  | append_singleton ops op ih =>
      simp only [after_concat, awaits_concat]
      rcases op with ⟨e', now⟩ | now | _
      · simp only [step, FsEventDebouncer.pending_push, window_after, PushesAt, LateFor,
          WatchOp.push.injEq]
        by_cases hp : p = e'.path
        · -- the new event takes the place of an older one
          subst hp
          rw [AList.lookup_insert]
          constructor
          · rintro h
            obtain rfl := Option.some.inj h
            exact ⟨now, rfl, rfl, Or.inl ⟨rfl, rfl⟩⟩
          · rintro ⟨pushed, hdeadline, hpath, ⟨hevent, rfl⟩ | ⟨-, hne, -⟩⟩
            · rw [hevent, ← hdeadline]
            · exact absurd hpath.symm hne
        · rw [AList.lookup_insert_ne hp, ih]
          constructor
          · rintro ⟨pushed, hdeadline, hpath, hawaits⟩
            refine ⟨pushed, hdeadline, hpath, Or.inr ⟨hawaits, ?_, id⟩⟩
            intro h
            exact hp (hpath.symm.trans h.symm)
          · rintro ⟨pushed, hdeadline, hpath, ⟨rfl, -⟩ | ⟨hawaits, -⟩⟩
            · exact absurd hpath.symm hp
            · exact ⟨pushed, hdeadline, hpath, hawaits⟩
      · simp only [step, FsEventDebouncer.lookup_drainExpired, Option.filter_eq_some_iff, ih, PushesAt,
          LateFor, decide_eq_true_eq, reduceCtorEq, false_or, not_false_eq_true, true_and]
        constructor
        · rintro ⟨⟨pushed, hdeadline, hpath, hawaits⟩, hlater⟩
          exact ⟨pushed, hdeadline, hpath, hawaits, by omega⟩
        · rintro ⟨pushed, hdeadline, hpath, hawaits, hlater⟩
          exact ⟨⟨pushed, hdeadline, hpath, hawaits⟩, by omega⟩
      · simp [step, FsEventDebouncer.drainAll, LateFor]

theorem filed_after (window : ℕ) (ops : List WatchOp) : (after window ops).Filed := by
  intro p entry h
  obtain ⟨-, -, hpath, -⟩ := (lookup_after window ops p entry).mp h
  exact hpath

/-- An operation gives out what awaits it. -/
theorem mem_step_after : e ∈ (step (after window ops) op).1 ↔
    ∃ pushed, Awaits window ops e pushed ∧ LateFor window pushed op := by
  rcases op with ⟨e', now⟩ | now | _
  · simp [step, LateFor]
  · simp only [step, FsEventDebouncer.mem_drainExpired_iff (filed_after window ops), lookup_after,
      LateFor]
    constructor
    · rintro ⟨-, ⟨pushed, rfl, -, hawaits⟩, hdue⟩
      exact ⟨pushed, hawaits, hdue⟩
    · rintro ⟨pushed, hawaits, hdue⟩
      exact ⟨pushed + window, ⟨pushed, rfl, trivial, hawaits⟩, hdue⟩
  · simp only [step, FsEventDebouncer.mem_drainAll_iff (filed_after window ops), lookup_after, LateFor]
    constructor
    · rintro ⟨-, pushed, -, -, hawaits⟩
      exact ⟨pushed, hawaits, trivial⟩
    · rintro ⟨pushed, hawaits, -⟩
      exact ⟨pushed + window, pushed, rfl, trivial, hawaits⟩

/-- Of each path one event is given out at a time. -/
theorem nodup_path_step_after : ((step (after window ops) op).1.map FsEvent.path).Nodup := by
  rcases op with ⟨e', now⟩ | now | _
  · exact List.nodup_nil
  · rw [step, FsEventDebouncer.map_path_drainExpired (filed_after window ops)]
    exact FsEventDebouncer.nodup_expiredKeys
  · rw [step, FsEventDebouncer.map_path_drainAll (filed_after window ops)]
    exact (((List.mergeSort_perm _ _).map Sigma.fst).nodup_iff).mpr (after window ops).pending.nodupKeys

/-- After the last push at a path, what awaits a drain at this path is the event pushed then. -/
theorem awaits_after_push {before since : List WatchOp} {e' : FsEvent} {pushed' : ℕ}
    (hquiet : ∀ op ∈ since, ¬ PushesAt e.path op) (hpath : e'.path = e.path) :
    Awaits window (before ++ .push e pushed :: since) e' pushed' ↔
      e' = e ∧ pushed' = pushed ∧ ∀ op ∈ since, ¬ LateFor window pushed op := by
  induction since using List.reverseRecOn with
  | nil =>
      simp only [awaits_concat, WatchOp.push.injEq, PushesAt, hpath, List.not_mem_nil]
      constructor
      · rintro (⟨rfl, rfl⟩ | ⟨-, hne, -⟩)
        · exact ⟨rfl, rfl, fun _ => False.elim⟩
        · exact absurd trivial hne
      · rintro ⟨rfl, rfl, -⟩
        exact Or.inl ⟨rfl, rfl⟩
  | append_singleton since op ih =>
      have hsince : ∀ o ∈ since, ¬ PushesAt e.path o := fun o ho => hquiet o (List.mem_append_left _ ho)
      have hop : ¬ PushesAt e.path op := hquiet op (by simp)
      have hne : op ≠ .push e' pushed' := by
        rintro rfl
        exact hop hpath
      rw [← List.cons_append, ← List.append_assoc, awaits_concat, ih hsince, hpath]
      simp only [hne, hop, false_or, not_false_eq_true, true_and, List.forall_mem_append,
        List.forall_mem_singleton]
      constructor
      · rintro ⟨⟨rfl, rfl, hnone⟩, hlast⟩
        exact ⟨rfl, rfl, hnone, hlast⟩
      · rintro ⟨rfl, rfl, hnone, hlast⟩
        exact ⟨⟨rfl, rfl, hnone⟩, hlast⟩

/-- After the last push at a path, the first drain that is late enough gives out the event pushed
then, and no other gives out anything at this path. -/
theorem mem_step_after_push {before since : List WatchOp} {e' : FsEvent}
    (hquiet : ∀ o ∈ since, ¬ PushesAt e.path o) (hpath : e'.path = e.path) :
    e' ∈ (step (after window (before ++ .push e pushed :: since)) op).1 ↔
      e' = e ∧ LateFor window pushed op ∧ ∀ o ∈ since, ¬ LateFor window pushed o := by
  simp only [mem_step_after, awaits_after_push hquiet hpath]
  constructor
  · rintro ⟨_, ⟨he, rfl, hnone⟩, hlate⟩
    exact ⟨he, hlate, hnone⟩
  · rintro ⟨he, hlate, hnone⟩
    exact ⟨pushed, ⟨he, rfl, hnone⟩, hlate⟩

/-- The debouncer loses nothing. At each moment of a run, what an operation gives out was pushed
before, and is the only event of its path. From the last push at a path on, the first drain that
comes a window later or more gives out the event of that push and no other drain gives out anything
at the path, and so a drain that is late enough finds the event given out or gives it out. -/
theorem debouncer_loses_nothing (window : ℕ) (ops : List WatchOp) (op : WatchOp) :
    (∀ e ∈ (step (after window ops) op).1, ∃ pushed, .push e pushed ∈ ops) ∧
    ((step (after window ops) op).1.map FsEvent.path).Nodup ∧
    ∀ before e pushed since, ops = before ++ .push e pushed :: since →
      (∀ o ∈ since, ¬ PushesAt e.path o) →
      (∀ e', e'.path = e.path → (e' ∈ (step (after window ops) op).1 ↔
        e' = e ∧ LateFor window pushed op ∧ ∀ o ∈ since, ¬ LateFor window pushed o)) ∧
      (LateFor window pushed op → e ∈ (step (after window ops) op).1 ∨
        ∃ mid drain rest, since = mid ++ drain :: rest ∧ LateFor window pushed drain ∧
          e ∈ (step (after window (before ++ .push e pushed :: mid)) drain).1) := by
  refine ⟨?_, nodup_path_step_after, ?_⟩
  · intro e he
    obtain ⟨pushed, ⟨before, since, rfl, -⟩, -⟩ := mem_step_after.mp he
    exact ⟨pushed, by simp⟩
  · rintro before e pushed since rfl hquiet
    refine ⟨fun e' hpath => mem_step_after_push hquiet hpath, ?_⟩
    intro hlate
    by_cases hdrained : ∃ o ∈ since, LateFor window pushed o
    · right
      obtain ⟨mid, drain, rest, rfl, hdrain, hmid⟩ := Trace.exists_first hdrained
      have hquiet' : ∀ o ∈ mid, ¬ PushesAt e.path o := fun o ho => hquiet o (List.mem_append_left _ ho)
      exact ⟨mid, drain, rest, rfl, hdrain, (mem_step_after_push hquiet' rfl).mpr ⟨rfl, hdrain, hmid⟩⟩
    · left
      refine (mem_step_after_push hquiet rfl).mpr ⟨rfl, hlate, ?_⟩
      intro o ho hlate'
      exact hdrained ⟨o, ho, hlate'⟩

/-- Of a file changed at 0 and deleted at 3 nothing is given out at 6, and the deletion is at 8. -/
theorem debouncer_loses_nothing_delete :
    let pushes : List WatchOp := [.push (.change ["a"]) 0, .push (.delete ["a"]) 3]
    FsEvent.delete ["a"] ∉ (step (after 5 pushes) (.drain 6)).1 ∧
      FsEvent.delete ["a"] ∈ (step (after 5 (pushes ++ [.drain 6])) (.drain 8)).1 := by
  have hearly := (debouncer_loses_nothing 5 _ (.drain 6)).2.2 [.push (.change ["a"]) 0]
    (.delete ["a"]) 3 [] rfl (by simp)
  have hlate := (debouncer_loses_nothing 5 _ (.drain 8)).2.2 [.push (.change ["a"]) 0]
    (.delete ["a"]) 3 [.drain 6] rfl (by simp [PushesAt])
  refine ⟨?_, (hlate.1 _ rfl).mpr ⟨rfl, by simp [LateFor], by simp [LateFor]⟩⟩
  intro hmem
  have htoo := ((hearly.1 _ rfl).mp hmem).2.1
  simp [LateFor] at htoo

end DiskArcana.Client.Watcher
