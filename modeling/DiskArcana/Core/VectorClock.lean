import Mathlib.Data.UInt
import DiskArcana.Lib.Table

/-!
# Vector clocks

`VectorClock` is `disk-core/src/vector_clock.rs`: a finite map from node ids to `u64` counters.
`advance` bumps one counter (saturating), `merge` takes the per-key maximum, and `compare` walks
the union of the two key sets with two flags and reads the causality off them.

The loop of `compare` is read back as the pointwise order on the counters, absent entries
counting as `0` (`compare_eq_before_iff` and its siblings); the reconciler's proofs use only
these.
-/

namespace DiskArcana.Core

open DiskArcana.Lib

/-- Per-node monotonic counters.
Source: `vector_clock.rs`, `VectorClock` -/
structure VectorClock where
  /-- The counter of each node that has one. -/
  ticks : Table String UInt64

/-- Two clocks are equal when they hold the same entries in the same order. -/
instance : DecidableEq VectorClock := fun c d =>
  decidable_of_iff (c.ticks.entries = d.ticks.entries)
    ⟨fun h => by
      obtain ⟨c⟩ := c
      obtain ⟨d⟩ := d
      exact congrArg VectorClock.mk (AList.ext h), fun h => by rw [h]⟩

/-- Causal relationship between two clocks.
Source: `vector_clock.rs`, `Causality` -/
inductive Causality where
  | equal
  | before
  | after
  | concurrent
  deriving DecidableEq, Repr

namespace VectorClock

/-- The empty clock.
Source: `vector_clock.rs`, `VectorClock::new` -/
def new : VectorClock := ⟨∅⟩

/-- `u64::saturating_add(1)`. -/
def saturatingSucc (n : UInt64) : UInt64 := if n = UInt64.ofNat (2 ^ 64 - 1) then n else n + 1

/-- The counter of `nodeId`, `0` when there is none.
Source: `vector_clock.rs`, `get` -/
def get (c : VectorClock) (nodeId : String) : UInt64 := (c.ticks.lookup nodeId).getD 0

/-- Bump the counter of `nodeId` by one, saturating.
Source: `vector_clock.rs`, `advance` -/
def advance (c : VectorClock) (nodeId : String) : VectorClock :=
  ⟨c.ticks.insert nodeId (saturatingSucc (c.get nodeId))⟩

/-- Per-key maximum.
Source: `vector_clock.rs`, `merge` -/
def merge (c other : VectorClock) : VectorClock :=
  ⟨other.ticks.entries.foldl
    (fun t e =>
      let slot := (t.lookup e.1).getD 0
      t.insert e.1 (if slot < e.2 then e.2 else slot))
    c.ticks⟩

/-- One turn of the loop of `compare` at the key `k`: raise the flag of the smaller side. -/
def compareStep (c other : VectorClock) (flags : Bool × Bool) (k : String) : Bool × Bool :=
  if c.get k < other.get k then (true, flags.2)
  else if other.get k < c.get k then (flags.1, true)
  else flags

/-- The flags `(self_lt_other, other_lt_self)` after the loop over the union of the keys. -/
def compareFlags (c other : VectorClock) : Bool × Bool :=
  (c.ticks.keys ∪ other.ticks.keys).foldl (compareStep c other) (false, false)

/-- Classify the causal relationship of two clocks.
Source: `vector_clock.rs`, `compare` -/
def compare (c other : VectorClock) : Causality :=
  match compareFlags c other with
  | (false, false) => .equal
  | (true, false) => .before
  | (false, true) => .after
  | (true, true) => .concurrent

/-! ## The loop as the pointwise order -/

/-- The counter after a bump: one more at the bumped node, the same elsewhere. -/
theorem get_advance (c : VectorClock) (n m : String) :
    (c.advance n).get m = if m = n then saturatingSucc (c.get n) else c.get m := by
  unfold advance get
  rw [Table.lookup_insert_eq_ite]
  split_ifs <;> rfl

@[simp] theorem get_new (n : String) : new.get n = 0 := rfl

/-- A key that neither clock holds counts as `0` on both sides. -/
theorem get_eq_zero_of_not_mem {c : VectorClock} {k : String} (h : k ∉ c.ticks.keys) :
    c.get k = 0 := by
  have hk : c.ticks.lookup k = none := AList.lookup_eq_none.mpr fun hm => h (AList.mem_keys.mp hm)
  rw [get, hk]
  rfl

/-- What the loop's flags say over a list of keys. -/
theorem foldl_compareStep (c other : VectorClock) (l : List String) (flags : Bool × Bool) :
    l.foldl (compareStep c other) flags =
      (flags.1 || l.any (fun k => decide (c.get k < other.get k)),
        flags.2 || l.any (fun k => decide (other.get k < c.get k))) := by
  induction l generalizing flags with
  | nil => simp
  | cons k l ih =>
      rw [List.foldl_cons, ih, List.any_cons, List.any_cons]
      unfold compareStep
      by_cases h₁ : c.get k < other.get k
      · have h₂ : ¬ other.get k < c.get k := fun h => absurd (UInt64.lt_trans h₁ h) (UInt64.lt_irrefl _)
        simp [h₁, h₂]
      · by_cases h₂ : other.get k < c.get k
        · simp [h₁, h₂]
        · simp [h₁, h₂]

/-- The first flag is raised exactly when some counter of the first clock is smaller. -/
theorem compareFlags_fst (c other : VectorClock) :
    (compareFlags c other).1 = true ↔ ∃ k, c.get k < other.get k := by
  unfold compareFlags
  rw [foldl_compareStep]
  simp only [Bool.false_or, List.any_eq_true, decide_eq_true_eq]
  constructor
  · rintro ⟨k, _, hk⟩
    exact ⟨k, hk⟩
  · rintro ⟨k, hk⟩
    refine ⟨k, ?_, hk⟩
    by_contra hmem
    rw [List.mem_union_iff, not_or] at hmem
    rw [get_eq_zero_of_not_mem hmem.2] at hk
    exact absurd hk (by simp)

/-- The second flag is raised exactly when some counter of the second clock is smaller. -/
theorem compareFlags_snd (c other : VectorClock) :
    (compareFlags c other).2 = true ↔ ∃ k, other.get k < c.get k := by
  unfold compareFlags
  rw [foldl_compareStep]
  simp only [Bool.false_or, List.any_eq_true, decide_eq_true_eq]
  constructor
  · rintro ⟨k, _, hk⟩
    exact ⟨k, hk⟩
  · rintro ⟨k, hk⟩
    refine ⟨k, ?_, hk⟩
    by_contra hmem
    rw [List.mem_union_iff, not_or] at hmem
    rw [get_eq_zero_of_not_mem hmem.1] at hk
    exact absurd hk (by simp)

/-- `compare` says *after* exactly when some counter of the first clock is larger and none is
smaller. -/
theorem compare_eq_after_iff (c other : VectorClock) :
    compare c other = .after ↔ (∃ k, other.get k < c.get k) ∧ ¬ ∃ k, c.get k < other.get k := by
  rw [← compareFlags_fst c other, ← compareFlags_snd c other]
  unfold compare
  rcases compareFlags c other with ⟨_ | _, _ | _⟩ <;> simp

/-- `compare` says *before* exactly when some counter of the first clock is smaller and none is
larger. -/
theorem compare_eq_before_iff (c other : VectorClock) :
    compare c other = .before ↔ (∃ k, c.get k < other.get k) ∧ ¬ ∃ k, other.get k < c.get k := by
  rw [← compareFlags_fst c other, ← compareFlags_snd c other]
  unfold compare
  rcases compareFlags c other with ⟨_ | _, _ | _⟩ <;> simp

/-- `compare` says *equal* exactly when the counters agree. -/
theorem compare_eq_equal_iff (c other : VectorClock) :
    compare c other = .equal ↔ ∀ k, c.get k = other.get k := by
  have hflags : compare c other = .equal ↔
      ¬ (∃ k, c.get k < other.get k) ∧ ¬ ∃ k, other.get k < c.get k := by
    rw [← compareFlags_fst c other, ← compareFlags_snd c other]
    unfold compare
    rcases compareFlags c other with ⟨_ | _, _ | _⟩ <;> simp
  rw [hflags, not_exists, not_exists]
  constructor
  · rintro ⟨hle, hge⟩ k
    exact UInt64.le_antisymm (UInt64.not_lt.mp (hge k)) (UInt64.not_lt.mp (hle k))
  · intro heq
    refine ⟨fun k hk => ?_, fun k hk => ?_⟩
    · rw [heq k] at hk
      exact UInt64.lt_irrefl _ hk
    · rw [heq k] at hk
      exact UInt64.lt_irrefl _ hk

theorem compare_self (c : VectorClock) : compare c c = .equal :=
  (compare_eq_equal_iff c c).mpr fun _ => rfl

/-- A clock with one tick is after a clock that counts nothing. -/
theorem compare_advance_of_zero (n : String) {c : VectorClock} (hc : ∀ k, c.get k = 0) :
    compare (new.advance n) c = .after := by
  rw [compare_eq_after_iff]
  refine ⟨⟨n, ?_⟩, ?_⟩
  · rw [get_advance, if_pos rfl, get_new, hc]
    decide
  · rintro ⟨k, hk⟩
    rw [hc] at hk
    exact absurd hk (by simp)

/-- A clock with one positive counter is after the empty clock: this is what the server compares
when a row comes from an upload and the client's entry carries the scanner's default clock. -/
theorem compare_advance_new (n : String) : compare (new.advance n) new = .after :=
  compare_advance_of_zero n get_new

/-- The empty clock says as much as one that counts nothing. -/
theorem compare_new_of_zero {c : VectorClock} (hc : ∀ k, c.get k = 0) : compare new c = .equal := by
  rw [compare_eq_equal_iff]
  intro k
  rw [get_new, hc]

/-- The empty clock is before every clock that counts something. -/
theorem compare_new_of_not_zero {c : VectorClock} (hc : ¬ ∀ k, c.get k = 0) :
    compare new c = .before := by
  rw [compare_eq_before_iff]
  obtain ⟨k, hk⟩ := not_forall.mp hc
  refine ⟨⟨k, ?_⟩, ?_⟩
  · rw [get_new]
    exact UInt64.pos_iff_ne_zero.mpr hk
  · rintro ⟨k', hk'⟩
    rw [get_new] at hk'
    exact absurd hk' (by simp)

/-- No clock is before the empty clock. -/
theorem compare_new_ne_before (c : VectorClock) : compare c new ≠ .before := by
  have hfst : (compareFlags c new).1 ≠ true := by
    rw [Ne, compareFlags_fst]
    rintro ⟨k, hk⟩
    rw [get_new] at hk
    exact absurd hk (by simp)
  unfold compare
  rcases hflags : compareFlags c new with ⟨_ | _, _ | _⟩ <;> simp_all

end VectorClock

end DiskArcana.Core
