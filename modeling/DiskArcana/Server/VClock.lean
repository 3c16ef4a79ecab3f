import Mathlib.Order.Bounds.Basic
import DiskArcana.Core.VectorClock

/-!
# The order of vector clocks

Clocks are ordered by their counters, a missing entry counting as 0. `compare` is that order
(`compare_eq_equal`, `compare_eq_before` and their siblings), `merge` is the least upper bound
(`isLUB_merge`), and `advance` goes up, unless the counter is already the greatest `u64`, where it
stays.

`VClock` is the clock of the server, `disk-server/src/multi_node/vclock.rs`. It merges as
`VectorClock` does, and advances as it does below the greatest counter.
-/

namespace DiskArcana.Core.VectorClock

open DiskArcana.Lib

/-- Every counter is at most the other's. -/
instance : Preorder VectorClock where
  le c d := ∀ n, c.get n ≤ d.get n
  le_refl _ _ := UInt64.le_refl _
  le_trans _ _ _ h h' n := UInt64.le_trans (h n) (h' n)

variable {c d e : VectorClock} {n m : String}

theorem le_def : c ≤ d ↔ ∀ n, c.get n ≤ d.get n := Iff.rfl

theorem not_le_iff : ¬ c ≤ d ↔ ∃ n, d.get n < c.get n := by
  simp only [le_def, not_forall, UInt64.not_le]

theorem lt_iff : c < d ↔ (∃ n, c.get n < d.get n) ∧ ¬ ∃ n, d.get n < c.get n := by
  rw [lt_iff_le_not_ge, and_comm, ← not_le_iff, ← not_le_iff, not_not]

/-! ## `compare` -/

theorem compare_eq_equal : compare c d = .equal ↔ c ≤ d ∧ d ≤ c := by
  rw [compare_eq_equal_iff]
  constructor
  · intro h
    exact ⟨fun n => by rw [h n]; exact UInt64.le_refl _, fun n => by rw [h n]; exact UInt64.le_refl _⟩
  · rintro ⟨hcd, hdc⟩ n
    exact UInt64.le_antisymm (hcd n) (hdc n)

theorem compare_eq_before : compare c d = .before ↔ c < d := by rw [compare_eq_before_iff, lt_iff]

theorem compare_eq_after : compare c d = .after ↔ d < c := by rw [compare_eq_after_iff, lt_iff]

theorem compare_eq_concurrent : compare c d = .concurrent ↔ ¬ c ≤ d ∧ ¬ d ≤ c := by
  have hcases : compare c d = .concurrent ↔
      compare c d ≠ .equal ∧ compare c d ≠ .before ∧ compare c d ≠ .after := by
    rcases compare c d <;> simp
  rw [hcases, Ne, Ne, Ne, compare_eq_equal, compare_eq_before, compare_eq_after, lt_iff_le_not_ge,
    lt_iff_le_not_ge]
  tauto

/-! ## `merge` -/

/-- The loop of `merge` over entries with different keys takes the greater counter at each of
them. -/
theorem lookup_foldl_merge (l : List (Sigma fun _ : String => UInt64)) (hl : l.NodupKeys)
    (t : Table String UInt64) (n : String) :
    (((l.foldl (fun t e =>
        let slot := (t.lookup e.1).getD 0
        t.insert e.1 (if slot < e.2 then e.2 else slot)) t).lookup n).getD 0).toNat =
      max ((t.lookup n).getD 0).toNat ((l.dlookup n).getD 0).toNat := by
  induction l generalizing t with
  | nil => simp
  | cons e l ih =>
      obtain ⟨k, v⟩ := e
      obtain ⟨hk, hl⟩ := List.nodupKeys_cons.mp hl
      rw [List.foldl_cons, ih hl, Table.lookup_insert_eq_ite]
      by_cases hn : n = k
      · subst hn
        have hnone : l.dlookup n = none := List.dlookup_eq_none.mpr hk
        rw [if_pos rfl, hnone, List.dlookup_cons_eq]
        simp only [Option.getD_some, Option.getD_none, UInt64.lt_iff_toNat_lt]
        split_ifs <;> simp <;> omega
      · rw [if_neg hn, List.dlookup_cons_ne _ _ hn]

theorem toNat_get_merge (c d : VectorClock) (n : String) :
    ((merge c d).get n).toNat = max (c.get n).toNat (d.get n).toNat :=
  lookup_foldl_merge d.ticks.entries d.ticks.nodupKeys c.ticks n

/-- **The merge is the least upper bound.** -/
theorem isLUB_merge (c d : VectorClock) : IsLUB {c, d} (merge c d) := by
  have hget : ∀ {x y : VectorClock}, x ≤ y ↔ ∀ n, (x.get n).toNat ≤ (y.get n).toNat := by
    intro x y
    simp only [le_def, UInt64.le_iff_toNat_le]
  refine ⟨?_, ?_⟩
  · rintro x (rfl | rfl) <;> rw [hget] <;> intro n <;> rw [toNat_get_merge]
    · exact le_max_left _ _
    · exact le_max_right _ _
  · intro x hx
    have hc : c ≤ x := hx (Set.mem_insert _ _)
    have hd : d ≤ x := hx (Set.mem_insert_of_mem _ rfl)
    rw [hget] at *
    intro n
    rw [toNat_get_merge]
    exact max_le (hc n) (hd n)

/-- Clocks with the same upper bounds are equal as `compare` sees it. -/
theorem compare_eq_equal_of_isLUB {s : Set VectorClock} (hc : IsLUB s c) (hd : IsLUB s d) :
    compare c d = .equal :=
  compare_eq_equal.mpr ⟨hc.2 hd.1, hd.2 hc.1⟩

theorem compare_merge_comm (c d : VectorClock) : compare (merge c d) (merge d c) = .equal := by
  apply compare_eq_equal_of_isLUB (isLUB_merge c d)
  rw [Set.pair_comm]
  exact isLUB_merge d c

theorem compare_merge_self (c : VectorClock) : compare (merge c c) c = .equal := by
  apply compare_eq_equal_of_isLUB (isLUB_merge c c)
  rw [Set.pair_eq_singleton]
  exact isLUB_singleton

theorem compare_merge_assoc (c d e : VectorClock) :
    compare (merge (merge c d) e) (merge c (merge d e)) = .equal := by
  rw [compare_eq_equal_iff]
  intro n
  apply UInt64.toNat_inj.mp
  simp only [toNat_get_merge]
  exact max_assoc _ _ _

/-! ## `advance` -/

/-- The greatest counter. -/
def maxTick : UInt64 := UInt64.ofNat (2 ^ 64 - 1)

theorem lt_saturatingSucc {t : UInt64} (h : t ≠ maxTick) : t < saturatingSucc t := by
  have hlt : t.toNat < 2 ^ 64 - 1 := by
    have hbound := t.toNat_lt
    have hne : t.toNat ≠ 2 ^ 64 - 1 := by
      intro heq
      apply h
      apply UInt64.toNat_inj.mp
      rw [heq]
      rfl
    omega
  have hone : (t + 1).toNat = t.toNat + 1 := by
    rw [UInt64.toNat_add]
    exact Nat.mod_eq_of_lt (by rw [UInt64.toNat_one]; omega)
  have hsucc : saturatingSucc t = t + 1 := if_neg h
  rw [hsucc, UInt64.lt_iff_toNat_lt, hone]
  omega

/-- **A bump goes up**, unless the counter is the greatest. -/
theorem compare_advance (h : c.get n ≠ maxTick) : compare (c.advance n) c = .after := by
  rw [compare_eq_after, lt_iff]
  refine ⟨⟨n, ?_⟩, ?_⟩
  · rw [get_advance, if_pos rfl]
    exact lt_saturatingSucc h
  · rintro ⟨m, hm⟩
    rw [get_advance] at hm
    split_ifs at hm with heq
    · subst heq
      exact UInt64.lt_irrefl _ (UInt64.lt_trans hm (lt_saturatingSucc h))
    · exact UInt64.lt_irrefl _ hm

/-- The greatest counter stays where it is. -/
theorem compare_advance_max (h : c.get n = maxTick) : compare (c.advance n) c = .equal := by
  rw [compare_eq_equal_iff]
  intro m
  rw [get_advance]
  split_ifs with heq
  · rw [heq, h]
    rfl
  · rfl

end DiskArcana.Core.VectorClock

namespace DiskArcana.Server

open DiskArcana.Core DiskArcana.Lib

/-- Source: `multi_node/vclock.rs`, `VClock` -/
structure VClock where
  ticks : Table String UInt64

namespace VClock

variable (c : VClock)

/-- Source: `multi_node/vclock.rs`, `get` -/
def get (nodeId : String) : UInt64 := (c.ticks.lookup nodeId).getD 0

/-- Source: `multi_node/vclock.rs`, `merge` -/
def merge (other : VClock) : VClock :=
  ⟨other.ticks.entries.foldl
    (fun t e =>
      let entry := (t.lookup e.1).getD 0
      t.insert e.1 (if entry < e.2 then e.2 else entry))
    c.ticks⟩

/-- The addition wraps around, or panics (`none`) in a build with overflow checks.
Source: `multi_node/vclock.rs`, `advance` -/
def advance (overflowChecks : Bool) (nodeId : String) : Option VClock :=
  if overflowChecks ∧ c.get nodeId = VectorClock.maxTick then none
  else some ⟨c.ticks.insert nodeId (c.get nodeId + 1)⟩

/-- The clock of the core with the same entries. -/
def toVectorClock : VectorClock := ⟨c.ticks⟩

variable {c} {d : VClock} {n : String}

/-- Below the greatest counter the server's clock advances as the core's. -/
theorem map_toVectorClock_advance {overflowChecks : Bool} (h : c.get n ≠ VectorClock.maxTick) :
    (c.advance overflowChecks n).map toVectorClock = some (c.toVectorClock.advance n) := by
  have hsucc : VectorClock.saturatingSucc (c.get n) = c.get n + 1 := if_neg h
  rw [advance, if_neg (fun hmax => h hmax.2), Option.map_some, toVectorClock, ← hsucc]
  rfl

end VClock

/-- **What clocks promise**, the clocks of the core and of the server alike. -/
structure ClockLaws : Prop where
  equal_iff (c d : VectorClock) : c.compare d = .equal ↔ c ≤ d ∧ d ≤ c
  before_iff (c d : VectorClock) : c.compare d = .before ↔ c < d
  after_iff (c d : VectorClock) : c.compare d = .after ↔ d < c
  concurrent_iff (c d : VectorClock) : c.compare d = .concurrent ↔ ¬ c ≤ d ∧ ¬ d ≤ c
  before_trans (c d e : VectorClock) : c.compare d = .before → d.compare e = .before →
    c.compare e = .before
  mirror (c d : VectorClock) : c.compare d = .before ↔ d.compare c = .after
  merge_lub (c d : VectorClock) : IsLUB {c, d} (c.merge d)
  merge_comm (c d : VectorClock) : (c.merge d).compare (d.merge c) = .equal
  merge_assoc (c d e : VectorClock) : ((c.merge d).merge e).compare (c.merge (d.merge e)) = .equal
  merge_self (c : VectorClock) : (c.merge c).compare c = .equal
  advance_after (c : VectorClock) (n : String) : c.get n ≠ VectorClock.maxTick →
    (c.advance n).compare c = .after
  advance_max (c : VectorClock) (n : String) : c.get n = VectorClock.maxTick →
    (c.advance n).compare c = .equal
  server_get (c : VClock) (n : String) : c.get n = c.toVectorClock.get n
  server_merge (c d : VClock) : (c.merge d).toVectorClock = c.toVectorClock.merge d.toVectorClock
  server_advance (overflowChecks : Bool) (c : VClock) (n : String) : c.get n ≠ VectorClock.maxTick →
    (c.advance overflowChecks n).map VClock.toVectorClock = some (c.toVectorClock.advance n)

theorem clockLaws : ClockLaws where
  equal_iff _ _ := VectorClock.compare_eq_equal
  before_iff _ _ := VectorClock.compare_eq_before
  after_iff _ _ := VectorClock.compare_eq_after
  concurrent_iff _ _ := VectorClock.compare_eq_concurrent
  before_trans c d e hcd hde := by
    rw [VectorClock.compare_eq_before] at *
    exact lt_trans hcd hde
  mirror _ _ := by rw [VectorClock.compare_eq_before, VectorClock.compare_eq_after]
  merge_lub := VectorClock.isLUB_merge
  merge_comm := VectorClock.compare_merge_comm
  merge_assoc := VectorClock.compare_merge_assoc
  merge_self := VectorClock.compare_merge_self
  advance_after _ _ := VectorClock.compare_advance
  advance_max _ _ := VectorClock.compare_advance_max
  server_get _ _ := rfl
  server_merge _ _ := rfl
  server_advance _ _ _ := VClock.map_toVectorClock_advance

/-- A clock whose only counter is the greatest. -/
def fullClock : VectorClock := ⟨(∅ : Table String UInt64).insert "a" VectorClock.maxTick⟩

/-- A bump of the greatest counter does not come after. -/
theorem not_after_of_full : (fullClock.advance "a").compare fullClock ≠ .after := by
  rw [VectorClock.compare_advance_max (by rfl)]
  simp

end DiskArcana.Server
