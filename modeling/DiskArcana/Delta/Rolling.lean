import DiskArcana.Core.Types
import DiskArcana.Lib.Checked
import DiskArcana.Lib.SlidingSum

/-!
# The rolling checksum

`disk-core/src/delta/rolling.rs`: an Adler-32 checksum that starts at zero. `RollingChecksum` keeps
the two sums of a window and its length; `roll` moves the window on by one byte. The sums and
products of `roll` are those of `u64`, and `none` is an overflow or an underflow.

The two sums are the sum and the weighted sum of the window, reduced (`new_eq`), and one roll keeps
that (`roll_new`).
-/

namespace DiskArcana.Delta

open DiskArcana.Core DiskArcana.Lib

/-- Source: `delta/rolling.rs`, `MOD_ADLER` -/
def modAdler : ℕ := 65521

/-- One turn of the loop of `new` and of `adler32_full`. -/
def adlerStep (sums : ℕ × ℕ) (b : UInt8) : ℕ × ℕ :=
  let s1 := (sums.1 + b.toNat) % modAdler
  (s1, (sums.2 + s1) % modAdler)

/-- Source: `delta/rolling.rs`, `adler32_full` -/
def adler32Full (data : Bytes) : UInt32 :=
  let (s1, s2) := data.foldl adlerStep (0, 0)
  UInt32.ofNat (s2 <<< 16 ||| s1)

/-- Source: `delta/rolling.rs`, `RollingChecksum` -/
structure RollingChecksum where
  s1 : ℕ
  s2 : ℕ
  n : ℕ
  deriving DecidableEq

namespace RollingChecksum

/-- Source: `delta/rolling.rs`, `RollingChecksum::new` -/
def new (window : Bytes) : RollingChecksum :=
  let (s1, s2) := window.foldl adlerStep (0, 0)
  ⟨s1, s2, window.length⟩

/-- Values of a `u64`. -/
def u64 : ℕ := 2 ^ 64

/-- Source: `delta/rolling.rs`, `roll` -/
def roll (c : RollingChecksum) (removed added : UInt8) : Option RollingChecksum := do
  let grown ← Checked.add u64 (← Checked.add u64 c.s1 added.toNat) modAdler
  let s1 := (← Checked.sub grown removed.toNat) % modAdler
  let grown ← Checked.add u64 (← Checked.add u64 c.s2 s1) (← Checked.mul u64 modAdler c.n)
  let s2 := (← Checked.sub grown (← Checked.mul u64 c.n removed.toNat)) % modAdler
  some ⟨s1, s2, c.n⟩

/-- Source: `delta/rolling.rs`, `digest` -/
def digest (c : RollingChecksum) : UInt32 := UInt32.ofNat (c.s2 <<< 16 ||| c.s1)

/-- The checksum of the first `n` bytes, rolled on over the bytes that follow. -/
def rolled (data : Bytes) (n : ℕ) : ℕ → Option RollingChecksum
  | 0 => some (new (data.take n))
  | k + 1 => do
      let c ← rolled data n k
      c.roll (← data[k]?) (← data[k + n]?)

/-! ## The sums of a window -/

/-- The bytes of a window as numbers. -/
def values (window : Bytes) : List ℕ := window.map UInt8.toNat

theorem foldl_adlerStep (window : Bytes) :
    window.foldl adlerStep (0, 0) =
      ((values window).sum % modAdler, SlidingSum.weighted (values window) % modAdler) := by
  induction window using List.reverseRecOn with
  | nil => rfl
  | append_singleton window b ih =>
      have hsum : (values (window ++ [b])).sum = (values window).sum + b.toNat := by
        simp [values]
      have hweighted : SlidingSum.weighted (values (window ++ [b])) =
          SlidingSum.weighted (values window) + (values (window ++ [b])).sum := by
        rw [values, List.map_append, List.map_singleton, SlidingSum.weighted_concat]
        rfl
      rw [List.foldl_append, ih, hweighted, hsum]
      simp [adlerStep, Nat.add_mod]

/-- A new checksum holds the reduced sums of its window. -/
theorem new_eq (window : Bytes) :
    new window = ⟨(values window).sum % modAdler, SlidingSum.weighted (values window) % modAdler,
      window.length⟩ := by
  simp [new, foldl_adlerStep]

theorem digest_new (window : Bytes) : (new window).digest = adler32Full window := by
  simp [new, digest, adler32Full]

/-- The sums of a reduced checksum stay below the limit while the window is not too long. -/
theorem roll_eq_some {c : RollingChecksum} {removed added : UInt8} {s1 : ℕ} (hs1 : c.s1 < modAdler)
    (hs2 : c.s2 < modAdler) (hn : (c.n + 2) * modAdler < u64)
    (hnew : (c.s1 + added.toNat + modAdler - removed.toNat) % modAdler = s1) :
    c.roll removed added =
      some ⟨s1, (c.s2 + s1 + modAdler * c.n - c.n * removed.toNat) % modAdler, c.n⟩ := by
  have hremoved : removed.toNat < 256 := removed.toNat_lt
  have hadded : added.toNat < 256 := added.toNat_lt
  have hbyte : 256 ≤ modAdler := by decide
  have hthree : 3 * modAdler < u64 := by decide
  have hs1' : s1 < modAdler := by
    rw [← hnew]
    exact Nat.mod_lt _ (by omega)
  have hlost : c.n * removed.toNat ≤ modAdler * c.n := by
    rw [Nat.mul_comm modAdler]
    exact Nat.mul_le_mul_left _ (by omega)
  have hlimit : modAdler * c.n + 2 * modAdler < u64 := by
    rwa [Nat.add_mul, Nat.mul_comm c.n] at hn
  have hadd : Checked.add u64 c.s1 added.toNat = some (c.s1 + added.toNat) :=
    Checked.add_of_lt (by omega)
  have hadd' : Checked.add u64 (c.s1 + added.toNat) modAdler = some (c.s1 + added.toNat + modAdler) :=
    Checked.add_of_lt (by omega)
  have hsub : Checked.sub (c.s1 + added.toNat + modAdler) removed.toNat =
      some (c.s1 + added.toNat + modAdler - removed.toNat) :=
    Checked.sub_of_le (by omega)
  have hsum : Checked.add u64 c.s2 s1 = some (c.s2 + s1) :=
    Checked.add_of_lt (by omega)
  have hmul : Checked.mul u64 modAdler c.n = some (modAdler * c.n) :=
    Checked.mul_of_lt (by omega)
  have hsum' : Checked.add u64 (c.s2 + s1) (modAdler * c.n) = some (c.s2 + s1 + modAdler * c.n) :=
    Checked.add_of_lt (by omega)
  have hmul' : Checked.mul u64 c.n removed.toNat = some (c.n * removed.toNat) :=
    Checked.mul_of_lt (by omega)
  have hsub' : Checked.sub (c.s2 + s1 + modAdler * c.n) (c.n * removed.toNat) =
      some (c.s2 + s1 + modAdler * c.n - c.n * removed.toNat) :=
    Checked.sub_of_le (by omega)
  -- the steps of `roll`, one by one: the kernel is slow where a simp takes them together
  unfold roll
  refine Option.bind_eq_some_iff.mpr ⟨_, hadd, ?_⟩
  refine Option.bind_eq_some_iff.mpr ⟨_, hadd', ?_⟩
  refine Option.bind_eq_some_iff.mpr ⟨_, hsub, ?_⟩
  rw [hnew]
  refine Option.bind_eq_some_iff.mpr ⟨_, hsum, ?_⟩
  refine Option.bind_eq_some_iff.mpr ⟨_, hmul, ?_⟩
  refine Option.bind_eq_some_iff.mpr ⟨_, hsum', ?_⟩
  refine Option.bind_eq_some_iff.mpr ⟨_, hmul', ?_⟩
  refine Option.bind_eq_some_iff.mpr ⟨_, hsub', ?_⟩
  rfl

/-- What the window loses and gains, reduced. -/
theorem reduced_sum {total removed added : ℕ} (h : removed < 256) :
    ((removed + total) % modAdler + added + modAdler - removed) % modAdler =
      (total + added) % modAdler := by
  unfold modAdler
  omega

theorem reduced_weighted {weight weight' lost sum n : ℕ} (h : lost ≤ modAdler * n)
    (hslide : weight' + lost = weight + sum) :
    (weight % modAdler + sum % modAdler + modAdler * n - lost) % modAdler = weight' % modAdler := by
  unfold modAdler at *
  omega

/-- **One roll** gives the checksum of the next window, without an overflow. -/
theorem roll_new {removed added : UInt8} {rest : Bytes}
    (hn : (rest.length + 1 + 2) * modAdler < u64) :
    (new (removed :: rest)).roll removed added = some (new (rest ++ [added])) := by
  have hremoved : removed.toNat < 256 := removed.toNat_lt
  have hsum : (values (rest ++ [added])).sum = (values rest).sum + added.toNat := by simp [values]
  have hslide : SlidingSum.weighted (values (rest ++ [added])) + (rest.length + 1) * removed.toNat =
      SlidingSum.weighted (values (removed :: rest)) + (values (rest ++ [added])).sum := by
    have h := SlidingSum.weighted_slide removed.toNat (values rest) added.toNat
    rw [values, List.length_map] at h
    rw [values, values, List.map_append, List.map_singleton, List.map_cons]
    exact h
  have hlost : (rest.length + 1) * removed.toNat ≤ modAdler * (rest.length + 1) := by
    rw [Nat.mul_comm modAdler]
    exact Nat.mul_le_mul_left _ (le_of_lt (lt_of_lt_of_le hremoved (by decide)))
  have hpos : 0 < modAdler := by decide
  have hs1 : (new (removed :: rest)).s1 < modAdler := by
    rw [new_eq]
    exact Nat.mod_lt _ hpos
  have hs2 : (new (removed :: rest)).s2 < modAdler := by
    rw [new_eq]
    exact Nat.mod_lt _ hpos
  have hwindow : (new (removed :: rest)).n = rest.length + 1 := by rw [new_eq, List.length_cons]
  rw [roll_eq_some hs1 hs2 (by rw [hwindow]; exact hn) rfl, hwindow, new_eq, new_eq]
  have htotal : (values (removed :: rest)).sum = removed.toNat + (values rest).sum := by
    simp [values]
  rw [hsum] at hslide
  simp only [hsum, htotal, reduced_sum hremoved, reduced_weighted hlost hslide, List.length_append,
    List.length_singleton]

theorem rolled_eq_new {data : Bytes} {n k : ℕ} (hn : (n + 2) * modAdler < u64) (h1 : 1 ≤ n)
    (hk : k + n ≤ data.length) : rolled data n k = some (new ((data.drop k).take n)) := by
  induction k with
  | zero => rfl
  | succ k ih =>
      obtain ⟨m, rfl⟩ : ∃ m, n = m + 1 := ⟨n - 1, by omega⟩
      have hout : data[k]? = some data[k] := List.getElem?_eq_getElem (by omega)
      have hin : data[k + (m + 1)]? = some data[k + (m + 1)] := List.getElem?_eq_getElem (by omega)
      have hold : (data.drop k).take (m + 1) = data[k] :: (data.drop (k + 1)).take m := by
        rw [List.drop_eq_getElem_cons (by omega), List.take_succ_cons]
      have hnew : (data.drop (k + 1)).take (m + 1) =
          (data.drop (k + 1)).take m ++ [data[k + (m + 1)]] := by
        rw [List.take_add_one, List.getElem?_drop, show k + 1 + m = k + (m + 1) by omega, hin]
        rfl
      have hlength : ((data.drop (k + 1)).take m).length = m := by
        rw [List.length_take, List.length_drop]
        omega
      rw [rolled, ih (by omega), hold, hnew]
      simp only [Option.bind_eq_bind, Option.bind_some, hout, hin]
      apply roll_new
      rw [hlength]
      exact hn

/-- **The rolled checksum is the checksum of the window**, after any number of rolls. -/
theorem digest_rolled {data : Bytes} {n k : ℕ} (h1 : 1 ≤ n) (hn : (n + 2) * modAdler < u64)
    (hk : k + n ≤ data.length) :
    ∃ c, rolled data n k = some c ∧ c.digest = adler32Full ((data.drop k).take n) :=
  ⟨_, rolled_eq_new hn h1 hk, digest_new _⟩

/-- Two rolls of a window of two bytes. -/
theorem digest_rolled_twice : 1 ≤ 2 ∧ (2 + 2) * modAdler < u64 ∧
    ∃ c, rolled [97, 98, 99, 100] 2 2 = some c ∧ c.digest = adler32Full [99, 100] :=
  ⟨by decide, by decide, digest_rolled (by decide) (by decide) (by decide)⟩

end RollingChecksum

end DiskArcana.Delta
