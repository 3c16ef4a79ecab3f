import Mathlib.Algebra.BigOperators.Intervals
import Mathlib.Algebra.Order.BigOperators.Group.Finset
import Mathlib.Order.Interval.Finset.Nat

/-!
# The proleptic Gregorian calendar

A date carries that its month and day exist. Days are counted by going from a date to the next
(`Date.next`); `dayNumber` is the count from the first day of the year 0, year by year and month by
month.
-/

namespace DiskArcana.Lib.Gregorian

/-- Every fourth year, of the centuries every fourth. -/
abbrev IsLeap (year : ℕ) : Prop := 4 ∣ year ∧ (100 ∣ year → 400 ∣ year)

def monthLength (year month : ℕ) : ℕ :=
  if month = 2 then if IsLeap year then 29 else 28
  else if month ∈ [4, 6, 9, 11] then 30
  else 31

def yearLength (year : ℕ) : ℕ := if IsLeap year then 366 else 365

@[ext]
structure Date where
  year : ℕ
  month : ℕ
  day : ℕ
  month_pos : 1 ≤ month
  month_le : month ≤ 12
  day_pos : 1 ≤ day
  day_le : day ≤ monthLength year month

variable {year month n : ℕ}

theorem monthLength_pos : 28 ≤ monthLength year month ∧ monthLength year month ≤ 31 := by
  unfold monthLength
  split_ifs <;> omega

/-! ## Days before a year and before a month -/

/-- Days of the years before one. -/
def beforeYear (year : ℕ) : ℕ :=
  365 * year + (year + 3) / 4 - (year + 99) / 100 + (year + 399) / 400

/-- Days of the months before one. -/
def beforeMonth (year month : ℕ) : ℕ := ∑ k ∈ Finset.Ico 1 month, monthLength year k

/-- There is one multiple more below a number after a multiple. -/
theorem div_succ {p : ℕ} (hp : 0 < p) (n : ℕ) :
    (n + 1 + (p - 1)) / p = (n + (p - 1)) / p + if p ∣ n then 1 else 0 := by
  rw [show n + 1 + (p - 1) = n + (p - 1) + 1 by omega, Nat.succ_div]
  rw [show n + (p - 1) + 1 = n + p by omega]
  simp only [Nat.dvd_add_self_right]

theorem beforeYear_succ (year : ℕ) : beforeYear (year + 1) = beforeYear year + yearLength year := by
  have h4 := div_succ (by decide : 0 < 4) year
  have h100 := div_succ (by decide : 0 < 100) year
  have h400 := div_succ (by decide : 0 < 400) year
  have hle : (year + 99) / 100 ≤ (year + 3) / 4 := by omega
  have hcentury : 100 ∣ year → 4 ∣ year := Nat.dvd_trans (by decide)
  have hfourth : 400 ∣ year → 100 ∣ year := Nat.dvd_trans (by decide)
  simp only [Nat.reduceSub] at h4 h100 h400
  unfold beforeYear yearLength
  rw [h4, h100, h400]
  by_cases h1 : 4 ∣ year
  · by_cases h2 : 100 ∣ year
    · by_cases h3 : 400 ∣ year
      · rw [if_pos h1, if_pos h2, if_pos h3, if_pos ⟨h1, fun _ => h3⟩]
        omega
      · rw [if_pos h1, if_pos h2, if_neg h3, if_neg fun h => h3 (h.2 h2)]
        omega
    · rw [if_pos h1, if_neg h2, if_neg fun h => h2 (hfourth h), if_pos ⟨h1, fun h => absurd h h2⟩]
      omega
  · have h2 := fun h => h1 (hcentury h)
    rw [if_neg h1, if_neg h2, if_neg fun h => h2 (hfourth h), if_neg fun h => h1 h.1]
    omega

theorem beforeMonth_one (year : ℕ) : beforeMonth year 1 = 0 := rfl

theorem beforeMonth_succ (year : ℕ) (h : 1 ≤ month) :
    beforeMonth year (month + 1) = beforeMonth year month + monthLength year month :=
  Finset.sum_Ico_succ_top h _

theorem beforeMonth_thirteen (year : ℕ) : beforeMonth year 13 = yearLength year := by
  have hmonths : beforeMonth year 13 = 337 + monthLength year 2 := by
    simp only [beforeMonth, Finset.sum_Ico_succ_top, Nat.reduceLeDiff, monthLength]
    simp
    omega
  rw [hmonths]
  unfold monthLength yearLength
  split_ifs <;> omega

theorem beforeMonth_le (year : ℕ) {month' : ℕ} (h : month ≤ month') :
    beforeMonth year month ≤ beforeMonth year month' :=
  Finset.sum_le_sum_of_subset (Finset.Ico_subset_Ico_right h)

namespace Date

variable (d : Date)

/-- The number of the day in its year, from 0. -/
def dayOfYear : ℕ := beforeMonth d.year d.month + (d.day - 1)

/-- The number of the day, from 0 for the first day of the year 0. -/
def dayNumber : ℕ := beforeYear d.year + d.dayOfYear

theorem dayOfYear_lt : d.dayOfYear < yearLength d.year := by
  have hnext := beforeMonth_succ d.year d.month_pos
  have hlast := beforeMonth_le d.year (Nat.succ_le_succ d.month_le)
  rw [beforeMonth_thirteen] at hlast
  have := d.day_pos
  have := d.day_le
  unfold dayOfYear
  simp only [Nat.succ_eq_add_one] at hlast
  omega

/-- The first day of a year. -/
def newYear (year : ℕ) : Date where
  year := year
  month := 1
  day := 1
  month_pos := le_rfl
  month_le := by decide
  day_pos := le_rfl
  day_le := le_trans (by decide) monthLength_pos.1

/-- The next day. -/
def next : Date :=
  if h : d.day < monthLength d.year d.month then
    { d with day := d.day + 1, day_pos := Nat.le_add_left 1 d.day, day_le := h }
  else if h' : d.month < 12 then
    { year := d.year
      month := d.month + 1
      day := 1
      month_pos := Nat.le_add_left 1 d.month
      month_le := h'
      day_pos := le_rfl
      day_le := le_trans (by decide) monthLength_pos.1 }
  else
    { year := d.year + 1
      month := 1
      day := 1
      month_pos := le_rfl
      month_le := by decide
      day_pos := le_rfl
      day_le := le_trans (by decide) monthLength_pos.1 }

theorem dayNumber_next : d.next.dayNumber = d.dayNumber + 1 := by
  have hpos := d.day_pos
  have hle := d.day_le
  unfold next
  split_ifs with hday hmonth
  · show beforeYear d.year + (beforeMonth d.year d.month + (d.day + 1 - 1)) =
      beforeYear d.year + (beforeMonth d.year d.month + (d.day - 1)) + 1
    omega
  · show beforeYear d.year + (beforeMonth d.year (d.month + 1) + 0) =
      beforeYear d.year + (beforeMonth d.year d.month + (d.day - 1)) + 1
    rw [beforeMonth_succ d.year d.month_pos]
    omega
  · show beforeYear (d.year + 1) + (beforeMonth (d.year + 1) 1 + 0) =
      beforeYear d.year + (beforeMonth d.year d.month + (d.day - 1)) + 1
    have htwelve : d.month = 12 := le_antisymm d.month_le (not_lt.mp hmonth)
    have hyear := beforeMonth_succ d.year d.month_pos
    rw [htwelve, beforeMonth_thirteen] at hyear
    rw [beforeYear_succ, beforeMonth_one, hyear, htwelve]
    rw [htwelve] at hle hday
    omega

/-- The day some days later. -/
def after (n : ℕ) : Date := next^[n] d

theorem after_succ (n : ℕ) : d.after (n + 1) = (d.after n).next := Function.iterate_succ_apply' next n d

theorem dayNumber_after (n : ℕ) : (d.after n).dayNumber = d.dayNumber + n := by
  induction n with
  | zero => rfl
  | succ n ih => rw [after_succ, dayNumber_next, ih, Nat.add_assoc]

/-- Year, month and day as one number. -/
def code : ℕ := (d.year * 10 ^ 2 + d.month) * 10 ^ 2 + d.day

theorem code_lt_next : d.code < d.next.code := by
  have hmonth := d.month_le
  have hday := le_trans d.day_le monthLength_pos.2
  unfold next
  split_ifs
  · show d.code < (d.year * 10 ^ 2 + d.month) * 10 ^ 2 + (d.day + 1)
    unfold code
    omega
  · show d.code < (d.year * 10 ^ 2 + (d.month + 1)) * 10 ^ 2 + 1
    unfold code
    omega
  · show d.code < ((d.year + 1) * 10 ^ 2 + 1) * 10 ^ 2 + 1
    unfold code
    omega

/-- Later days have greater numbers. -/
theorem code_strictMono : StrictMono fun n => (d.after n).code := by
  apply strictMono_nat_of_lt_succ
  intro n
  rw [after_succ]
  exact code_lt_next _

theorem year_le_next : d.year ≤ d.next.year := by
  unfold next
  split_ifs
  · exact le_rfl
  · exact le_rfl
  · exact Nat.le_succ d.year

theorem year_mono : Monotone fun n => (d.after n).year := by
  apply monotone_nat_of_le_succ
  intro n
  rw [after_succ]
  exact year_le_next _

end Date

end DiskArcana.Lib.Gregorian
