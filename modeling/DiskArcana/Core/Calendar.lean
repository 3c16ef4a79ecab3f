import DiskArcana.Core.Fork
import DiskArcana.Lib.Checked
import DiskArcana.Lib.Decimal
import DiskArcana.Lib.Gregorian
import Mathlib.Tactic.IntervalCases

/-!
# Unix times as dates

`unix_to_ymd_hms` of `disk-core/src/conflict/fork.rs` finds year and month by taking their lengths off
the days since 1970 in two loops. `unixToYmdHmsChecked` is the function with its ways to fail: a month
that does not exist, on which the source panics, and a year that is no longer a `u32`.
`unixToYmdHms_calendar` says that it gives the date that is so many days after 1 January 1970, as long
as the year fits, and that the timestamps of conflict copies are in the order of the times.
-/

namespace DiskArcana.Core

open DiskArcana.Lib DiskArcana.Lib.Gregorian

/-! ## The functions with their failures -/

/-- The lengths of the months, `none` on the panic.
Source: `conflict/fork.rs`, `days_in_month` -/
def daysInMonthChecked (y mo : ℕ) : Option ℕ :=
  match mo with
  | 1 | 3 | 5 | 7 | 8 | 10 | 12 => some 31
  | 4 | 6 | 9 | 11 => some 30
  | 2 => some (if isLeap y then 29 else 28)
  | _ => none

/-- `takePeriods` with the failures of the lengths and of the counter, which is a `u32`. A period
takes at least one day, so that the fuel does not run out first.
Source: `conflict/fork.rs`, the two loops of `unix_to_ymd_hms` -/
def takePeriodsChecked (length : ℕ → Option ℕ) : ℕ → ℕ → ℕ → Option (ℕ × ℕ)
  | 0, _, _ => none
  | fuel + 1, n, rem => do
    let len ← length n
    if rem < len then return (n, rem)
    else
      let n ← Checked.add (2 ^ 32) n 1
      takePeriodsChecked length fuel n (rem - len)

/-- Source: `conflict/fork.rs`, `unix_to_ymd_hms` -/
def unixToYmdHmsChecked (secs : ℕ) : Option (ℕ × ℕ × ℕ × ℕ × ℕ × ℕ) := do
  let s := secs % 60
  let mins := secs / 60
  let mi := mins % 60
  let hours := mins / 60
  let h := hours % 24
  let days := hours / 24
  let (year, rem) ← takePeriodsChecked (fun y => some (daysInYear y)) (days + 1) 1970 days
  let (mo, rem) ← takePeriodsChecked (daysInMonthChecked year) (rem + 1) 1 rem
  let d := rem + 1
  return (year, mo, d % 2 ^ 32, h % 2 ^ 32, mi % 2 ^ 32, s % 2 ^ 32)

/-! ## What a loop finds -/

section Loop

variable {length : ℕ → ℕ} {n m rem r : ℕ}

theorem before_le {before : ℕ → ℕ}
    (hstep : ∀ k, n ≤ k → k < m → before (k + 1) = before k + length k ∧ 0 < length k)
    (hle : n ≤ m) : before n ≤ before m := by
  induction m, hle using Nat.le_induction with
  | base => exact le_rfl
  | succ m hnm ih =>
      have hprev := ih fun k hk hkm => hstep k hk (Nat.lt_succ_of_lt hkm)
      have := (hstep m hnm (Nat.lt_succ_self m)).1
      omega

theorem before_succ_le {before : ℕ → ℕ}
    (hstep : ∀ k, n ≤ k → k < m → before (k + 1) = before k + length k ∧ 0 < length k)
    (hlt : n < m) : before (n + 1) ≤ before m :=
  before_le (fun k hk => hstep k (Nat.le_of_succ_le hk)) hlt

/-- The loop stops at the period that the days are in: `before` counts the days in front of a
period. -/
theorem takePeriods_eq (before : ℕ → ℕ)
    (hstep : ∀ k, n ≤ k → k < m → before (k + 1) = before k + length k ∧ 0 < length k)
    (hle : n ≤ m) (hr : r < length m) (h : before n + rem = before m + r) {fuel : ℕ}
    (hfuel : rem ≤ fuel) : takePeriods length fuel n rem = (m, r) := by
  induction fuel generalizing n rem with
  | zero =>
      rcases Nat.eq_or_lt_of_le hle with rfl | hlt
      · obtain rfl : rem = r := by omega
        rfl
      · have hfirst := hstep n le_rfl hlt
        have hrest := before_succ_le hstep hlt
        omega
  | succ fuel ih =>
      unfold takePeriods
      rcases Nat.eq_or_lt_of_le hle with rfl | hlt
      · obtain rfl : rem = r := by omega
        rw [if_pos hr]
      · have hfirst := hstep n le_rfl hlt
        have hrest := before_succ_le hstep hlt
        rw [if_neg (by omega)]
        exact ih (fun k hk => hstep k (Nat.le_of_succ_le hk)) hlt (by omega) (by omega)

/-- The loop with its failures finds the same, when the lengths up to there exist and the counter
fits. -/
theorem takePeriodsChecked_eq (before : ℕ → ℕ) {length? : ℕ → Option ℕ}
    (hstep : ∀ k, n ≤ k → k < m → before (k + 1) = before k + length k ∧ 0 < length k)
    (hlength : ∀ k, n ≤ k → k ≤ m → length? k = some (length k)) (hm : m < 2 ^ 32)
    (hle : n ≤ m) (hr : r < length m) (h : before n + rem = before m + r) {fuel : ℕ}
    (hfuel : rem < fuel) : takePeriodsChecked length? fuel n rem = some (m, r) := by
  induction fuel generalizing n rem with
  | zero => omega
  | succ fuel ih =>
      unfold takePeriodsChecked
      rw [hlength n le_rfl hle]
      simp only [Option.bind_eq_bind, Option.bind_some]
      rcases Nat.eq_or_lt_of_le hle with rfl | hlt
      · obtain rfl : rem = r := by omega
        rw [if_pos hr]
        rfl
      · have hfirst := hstep n le_rfl hlt
        have hrest := before_succ_le hstep hlt
        rw [if_neg (by omega), Checked.add_of_lt (by omega), Option.bind_some]
        exact ih (fun k hk => hstep k (Nat.le_of_succ_le hk))
          (fun k hk => hlength k (Nat.le_of_succ_le hk)) hlt (by omega) (by omega)

end Loop

/-! ## Years and months -/

theorem isLeap_eq_true_iff {y : ℕ} : isLeap y = true ↔ IsLeap y := by
  simp only [isLeap, IsLeap, Bool.or_eq_true, Bool.and_eq_true, beq_iff_eq, bne_iff_ne, ne_eq]
  omega

theorem daysInYear_eq (y : ℕ) : daysInYear y = yearLength y := by
  unfold daysInYear yearLength
  simp only [isLeap_eq_true_iff]

theorem daysInMonthChecked_eq {y mo : ℕ} (hpos : 1 ≤ mo) (hle : mo ≤ 12) :
    daysInMonthChecked y mo = some (monthLength y mo) := by
  interval_cases mo <;> simp [daysInMonthChecked, monthLength, isLeap_eq_true_iff]

theorem daysInMonth_eq {y mo : ℕ} (hpos : 1 ≤ mo) (hle : mo ≤ 12) :
    daysInMonth y mo = monthLength y mo := by
  interval_cases mo <;> simp [daysInMonth, monthLength, isLeap_eq_true_iff]

/-! ## The date of a time -/

/-- 1 January 1970. -/
def epoch : Date := .newYear 1970

/-- The date that a number of seconds after the epoch falls on. -/
def dateOf (secs : ℕ) : Date := epoch.after (secs / 86400)

/-- The days since 1970 are those of the years before, of the months before and of the month. -/
theorem days_eq (secs : ℕ) :
    beforeYear 1970 + secs / 86400 = beforeYear (dateOf secs).year + (dateOf secs).dayOfYear :=
  (Date.dayNumber_after epoch (secs / 86400)).symm

/-- Years have at least 365 days. -/
theorem dateOf_year_le (secs : ℕ) : 365 * (dateOf secs).year ≤ beforeYear 1970 + secs / 86400 := by
  rw [days_eq]
  unfold beforeYear
  omega

theorem epoch_year_le (secs : ℕ) : 1970 ≤ (dateOf secs).year :=
  Date.year_mono epoch (Nat.zero_le (secs / 86400))

theorem days_div (secs : ℕ) : secs / 60 / 60 / 24 = secs / 86400 := by
  rw [Nat.div_div_eq_div_mul, Nat.div_div_eq_div_mul]

theorem timeOfDay_lt (secs : ℕ) :
    secs / 60 / 60 % 24 < 24 ∧ secs / 60 % 60 < 60 ∧ secs % 60 < 60 :=
  ⟨Nat.mod_lt _ (by decide), Nat.mod_lt _ (by decide), Nat.mod_lt _ (by decide)⟩

theorem day_le (d : Date) : d.day ≤ 31 := le_trans d.day_le monthLength_pos.2

theorem yearStep (k : ℕ) : beforeYear (k + 1) = beforeYear k + daysInYear k ∧ 0 < daysInYear k := by
  rw [beforeYear_succ, daysInYear_eq]
  refine ⟨rfl, ?_⟩
  unfold yearLength
  split_ifs <;> decide

theorem monthStep {y k : ℕ} (hpos : 1 ≤ k) (hle : k ≤ 12) :
    beforeMonth y (k + 1) = beforeMonth y k + daysInMonth y k ∧ 0 < daysInMonth y k := by
  rw [beforeMonth_succ y hpos, daysInMonth_eq hpos hle]
  exact ⟨rfl, lt_of_lt_of_le (by decide) monthLength_pos.1⟩

theorem day_lt (d : Date) : d.day - 1 < daysInMonth d.year d.month := by
  rw [daysInMonth_eq d.month_pos d.month_le]
  have := d.day_pos
  have := d.day_le
  omega

/-- Date and time of day of a number of seconds. -/
theorem unixToYmdHms_eq (secs : ℕ) :
    unixToYmdHms secs = ((dateOf secs).year, (dateOf secs).month, (dateOf secs).day,
      secs / 60 / 60 % 24, secs / 60 % 60, secs % 60) := by
  have hyear : takePeriods daysInYear (secs / 60 / 60 / 24) 1970 (secs / 60 / 60 / 24) =
      ((dateOf secs).year, (dateOf secs).dayOfYear) := by
    rw [days_div]
    refine takePeriods_eq beforeYear (fun k _ _ => yearStep k) (epoch_year_le secs) ?_ (days_eq secs) le_rfl
    rw [daysInYear_eq]
    exact (dateOf secs).dayOfYear_lt
  have hmonth : takePeriods (daysInMonth (dateOf secs).year) (dateOf secs).dayOfYear 1
      (dateOf secs).dayOfYear = ((dateOf secs).month, (dateOf secs).day - 1) := by
    refine takePeriods_eq (beforeMonth (dateOf secs).year)
      (fun k hpos hlt => monthStep hpos (le_trans hlt.le (dateOf secs).month_le))
      (dateOf secs).month_pos (day_lt _) ?_ le_rfl
    rw [beforeMonth_one, Nat.zero_add]
    rfl
  unfold unixToYmdHms
  simp only [hyear, hmonth, Nat.sub_add_cancel (dateOf secs).day_pos]

/-- The loops end in a year and a month that exist, without a panic or an overflow. -/
theorem unixToYmdHmsChecked_eq {secs : ℕ} (h : (dateOf secs).year < 2 ^ 32) :
    unixToYmdHmsChecked secs = some (unixToYmdHms secs) := by
  have hyear : takePeriodsChecked (fun y => some (daysInYear y)) (secs / 60 / 60 / 24 + 1) 1970
      (secs / 60 / 60 / 24) = some ((dateOf secs).year, (dateOf secs).dayOfYear) := by
    rw [days_div]
    refine takePeriodsChecked_eq beforeYear (fun k _ _ => yearStep k) (fun _ _ _ => rfl) h (epoch_year_le secs)
      ?_ (days_eq secs) (Nat.lt_succ_self _)
    rw [daysInYear_eq]
    exact (dateOf secs).dayOfYear_lt
  have hmonth : takePeriodsChecked (daysInMonthChecked (dateOf secs).year)
      ((dateOf secs).dayOfYear + 1) 1 (dateOf secs).dayOfYear =
      some ((dateOf secs).month, (dateOf secs).day - 1) := by
    have hle := (dateOf secs).month_le
    refine takePeriodsChecked_eq (beforeMonth (dateOf secs).year)
      (fun k hpos hlt => monthStep hpos (le_trans hlt.le hle)) (fun k hpos hk => ?_) (by omega)
      (dateOf secs).month_pos (day_lt _) ?_ (Nat.lt_succ_self _)
    · rw [daysInMonthChecked_eq hpos (le_trans hk hle), daysInMonth_eq hpos (le_trans hk hle)]
    · rw [beforeMonth_one, Nat.zero_add]
      rfl
  have hday := day_le (dateOf secs)
  obtain ⟨hhour, hminute, hsecond⟩ := timeOfDay_lt secs
  rw [unixToYmdHms_eq]
  unfold unixToYmdHmsChecked
  simp only [Option.bind_eq_bind, hyear, hmonth, Option.bind_some,
    Nat.sub_add_cancel (dateOf secs).day_pos]
  rw [Nat.mod_eq_of_lt (by omega : (dateOf secs).day < 2 ^ 32),
    Nat.mod_eq_of_lt (by omega : secs / 60 / 60 % 24 < 2 ^ 32),
    Nat.mod_eq_of_lt (by omega : secs / 60 % 60 < 2 ^ 32),
    Nat.mod_eq_of_lt (by omega : secs % 60 < 2 ^ 32)]
  rfl

/-! ## Timestamps -/

theorem toList_padLeft {width n : ℕ} (hwidth : 0 < width) (h : n < 10 ^ width) :
    (padLeft width n).toList = Decimal.fixed width n := by
  unfold padLeft
  rw [String.toList_ofList, Nat.toString_eq_ofList_toDigits, String.toList_ofList]
  exact Decimal.replicate_append_toDigits hwidth h

/-- Hour, minute and second as one number. -/
def clock (secs : ℕ) : ℕ := (secs / 60 / 60 % 24 * 10 ^ 2 + secs / 60 % 60) * 10 ^ 2 + secs % 60

theorem clock_lt {secs secs' : ℕ} (hday : secs / 86400 = secs' / 86400) (h : secs < secs') :
    clock secs < clock secs' := by
  have hsplit : ∀ n : ℕ,
      n = 86400 * (n / 86400) + 3600 * (n / 60 / 60 % 24) + 60 * (n / 60 % 60) + n % 60 := by
    intro n
    have := days_div n
    omega
  have h₁ := hsplit secs
  have h₂ := hsplit secs'
  obtain ⟨_, hminute, hsecond⟩ := timeOfDay_lt secs
  obtain ⟨_, hminute', hsecond'⟩ := timeOfDay_lt secs'
  unfold clock
  generalize secs / 60 / 60 % 24 = hour at *
  generalize secs / 60 % 60 = minute at *
  generalize secs' / 60 / 60 % 24 = hour' at *
  generalize secs' / 60 % 60 = minute' at *
  rcases lt_trichotomy hour hour' with hlt | rfl | hgt
  · omega
  · rcases lt_trichotomy minute minute' with hlt | rfl | hgt
    · omega
    · omega
    · omega
  · omega

/-- A timestamp is the number of the date, a hyphen and the number of the time of day. -/
theorem toList_formatTimestamp {secs : ℕ} (h : (dateOf secs).year ≤ 9999) :
    (formatTimestamp secs).toList =
      Decimal.fixed 8 (dateOf secs).code ++ '-' :: Decimal.fixed 6 (clock secs) := by
  have hmonth := (dateOf secs).month_le
  have hday := day_le (dateOf secs)
  obtain ⟨hhour, hminute, hsecond⟩ := timeOfDay_lt secs
  unfold formatTimestamp
  rw [Int.toNat_natCast, unixToYmdHms_eq]
  simp only [String.toList_append]
  rw [toList_padLeft (by decide) (by omega), toList_padLeft (by decide) (by omega),
    toList_padLeft (by decide) (by omega), toList_padLeft (by decide) (by omega),
    toList_padLeft (by decide) (by omega), toList_padLeft (by decide) (by omega)]
  have hdate : Decimal.fixed 4 (dateOf secs).year ++ Decimal.fixed 2 (dateOf secs).month ++
      Decimal.fixed 2 (dateOf secs).day = Decimal.fixed 8 (dateOf secs).code := by
    rw [Decimal.fixed_append (by omega), Decimal.fixed_append (by omega)]
    rfl
  have hclock : Decimal.fixed 2 (secs / 60 / 60 % 24) ++ Decimal.fixed 2 (secs / 60 % 60) ++
      Decimal.fixed 2 (secs % 60) = Decimal.fixed 6 (clock secs) := by
    rw [Decimal.fixed_append (by omega), Decimal.fixed_append (by omega)]
    rfl
  rw [hdate, ← hclock]
  simp only [List.append_assoc]
  rfl

theorem formatTimestamp_lt {secs secs' : ℕ} (hyear : (dateOf secs').year ≤ 9999) (h : secs < secs') :
    formatTimestamp secs < formatTimestamp secs' := by
  have hdays : secs / 86400 ≤ secs' / 86400 := Nat.div_le_div_right h.le
  have hcode : (dateOf secs').code < 10 ^ 8 := by
    have hmonth := (dateOf secs').month_le
    have hday := day_le (dateOf secs')
    unfold Date.code
    omega
  have hclock : clock secs' < 10 ^ 6 := by
    obtain ⟨hhour, hminute, hsecond⟩ := timeOfDay_lt secs'
    unfold clock
    omega
  rw [String.lt_iff_toList_lt]
  rw [toList_formatTimestamp hyear, toList_formatTimestamp (le_trans (Date.year_mono epoch hdays) hyear)]
  rcases Nat.eq_or_lt_of_le hdays with heq | hlt
  · -- on one day the time of day decides
    rw [show dateOf secs = dateOf secs' from congrArg epoch.after heq]
    apply List.append_left_lt
    exact List.Lex.cons (Decimal.fixed_lt (clock_lt heq h) hclock)
  · exact Decimal.append_lt_append (by rw [Decimal.length_fixed, Decimal.length_fixed])
      (Decimal.fixed_lt (Date.code_strictMono epoch hlt) hcode) _ _

/-! ## The calendar -/

/-- A time is the date so many days after 1 January 1970, and the rest of its seconds as hours,
minutes and seconds; the months and days of a `Date` exist. -/
structure CalendarLaw (secs : ℕ) : Prop where
  total : unixToYmdHmsChecked secs = some (unixToYmdHms secs)
  date : ∃ days hour minute second, hour < 24 ∧ minute < 60 ∧ second < 60 ∧
    secs = 86400 * days + 3600 * hour + 60 * minute + second ∧
    unixToYmdHms secs = ((epoch.after days).year, (epoch.after days).month, (epoch.after days).day,
      hour, minute, second)

theorem calendarLaw {secs : ℕ} (h : (dateOf secs).year < 2 ^ 32) : CalendarLaw secs where
  total := unixToYmdHmsChecked_eq h
  date := by
    obtain ⟨hhour, hminute, hsecond⟩ := timeOfDay_lt secs
    refine ⟨secs / 86400, secs / 60 / 60 % 24, secs / 60 % 60, secs % 60, hhour, hminute, hsecond, ?_,
      unixToYmdHms_eq secs⟩
    have := days_div secs
    omega

/-- Every number of seconds whose year is a `u32` is converted to its date and time of day, and up to
the year 9999 later times have greater timestamps. -/
theorem unixToYmdHms_calendar :
    (∀ secs, (dateOf secs).year < 2 ^ 32 → CalendarLaw secs) ∧
      ∀ secs secs' : ℕ, (dateOf secs').year ≤ 9999 → secs < secs' →
        formatTimestamp secs < formatTimestamp secs' :=
  ⟨fun _ => calendarLaw, fun _ _ => formatTimestamp_lt⟩

/-- The last second of 28 February 2000, and the first of the leap day after it. -/
theorem unixToYmdHms_calendar_leap_day :
    CalendarLaw 951782400 ∧ formatTimestamp 951782399 < formatTimestamp 951782400 := by
  have hyear : (dateOf 951782400).year ≤ 9999 := by
    have hle := dateOf_year_le 951782400
    have hbefore : beforeYear 1970 = 719528 := by decide
    omega
  exact ⟨unixToYmdHms_calendar.1 _ (lt_of_le_of_lt hyear (by decide)),
    unixToYmdHms_calendar.2 951782399 951782400 hyear (by decide)⟩

example : formatTimestamp 951782400 = "20000229-000000" := by decide +kernel

end DiskArcana.Core
