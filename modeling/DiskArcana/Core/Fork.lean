import DiskArcana.Core.Filter

/-!
# Names of conflict copies

`fork_filename` of `disk-core/src/conflict/fork.rs`: a conflict copy stands next to its original,
under a name that carries eight hexadecimal characters of the writer's node id and a UTC timestamp
in front of the last extension. Times are seconds since the Unix epoch.
-/

namespace DiskArcana.Core

/-- Source: `conflict/fork.rs`, `is_leap` -/
def isLeap (y : ℕ) : Bool := (y % 4 == 0 && y % 100 != 0) || y % 400 == 0

/-- Source: `conflict/fork.rs`, `days_in_year` -/
def daysInYear (y : ℕ) : ℕ := if isLeap y then 366 else 365

/-- The lengths of the months; other numbers, on which the source panics, do not arise.
Source: `conflict/fork.rs`, `days_in_month` -/
def daysInMonth (y mo : ℕ) : ℕ :=
  match mo with
  | 4 | 6 | 9 | 11 => 30
  | 2 => if isLeap y then 29 else 28
  | _ => 31

/-- Take whole periods off `rem`, counting up from `n`; each turn takes at least one day, so
`rem` turns are enough.
Source: `conflict/fork.rs`, the two loops of `unix_to_ymd_hms` -/
def takePeriods (length : ℕ → ℕ) : ℕ → ℕ → ℕ → ℕ × ℕ
  | 0, n, rem => (n, rem)
  | fuel + 1, n, rem =>
    if rem < length n then (n, rem) else takePeriods length fuel (n + 1) (rem - length n)

/-- Year, month, day, hour, minute and second of a Unix time.
Source: `conflict/fork.rs`, `unix_to_ymd_hms` -/
def unixToYmdHms (secs : ℕ) : ℕ × ℕ × ℕ × ℕ × ℕ × ℕ :=
  let s := secs % 60
  let mins := secs / 60
  let mi := mins % 60
  let hours := mins / 60
  let h := hours % 24
  let days := hours / 24
  let (year, rem) := takePeriods daysInYear days 1970 days
  let (mo, rem) := takePeriods (daysInMonth year) rem 1 rem
  (year, mo, rem + 1, h, mi, s)

/-- Decimal digits, zero-padded on the left to a width. -/
def padLeft (width n : ℕ) : String :=
  let digits := (toString n).toList
  String.ofList (List.replicate (width - digits.length) '0' ++ digits)

/-- `YYYYMMDD-HHMMSS`; times before the epoch count as the epoch.
Source: `conflict/fork.rs`, `format_timestamp` -/
def formatTimestamp (ts : ℤ) : String :=
  let (y, mo, d, h, mi, s) := unixToYmdHms ts.toNat
  padLeft 4 y ++ padLeft 2 mo ++ padLeft 2 d ++ "-" ++ padLeft 2 h ++ padLeft 2 mi ++ padLeft 2 s

/-- Split a file name at its last dot, not counting a leading one.
Source: `conflict/fork.rs`, `split_stem_ext` -/
def splitStemExt (name : String) : String × String :=
  let cs := name.toList
  let searchFrom := if cs.head? = some '.' then 1 else 0
  let tail := cs.drop searchFrom
  let ext := tail.reverse.takeWhile (· != '.')
  if ext.length = tail.length then (name, "")
  else (String.ofList (cs.take (cs.length - ext.length - 1)), String.ofList ext.reverse)

/-- The first eight lower-case hexadecimal characters of a node id, padded with zeros. -/
def nodeId8 (nodeId : NodeId) : String :=
  let cs := (nodeId.toList.filter fun c => ('a' ≤ c && c ≤ 'f') || ('0' ≤ c && c ≤ '9')).take 8
  String.ofList (cs ++ List.replicate (8 - cs.length) '0')

/-- The conflict copy of a path.
Source: `conflict/fork.rs`, `fork_filename` -/
def forkFilename (relPath : Path) (nodeId : NodeId) (ts : ℤ) : Path :=
  let (stem, ext) := splitStemExt ((fileName relPath).getD "")
  let suffix := "sync-conflict-" ++ nodeId8 nodeId ++ "-" ++ formatTimestamp ts
  let newName := if ext.isEmpty then stem ++ "." ++ suffix else stem ++ "." ++ suffix ++ "." ++ ext
  relPath.dropLast ++ [newName]

example : splitStemExt "archive.tar.gz" = ("archive.tar", "gz") := by decide +kernel

example : splitStemExt ".hidden" = (".hidden", "") := by decide +kernel

end DiskArcana.Core
