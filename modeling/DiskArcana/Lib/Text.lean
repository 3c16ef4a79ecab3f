import Mathlib.Algebra.Group.Int.Defs
import Mathlib.Algebra.Group.Nat.Defs
import Mathlib.Data.Int.Notation
import Mathlib.Data.List.Basic
import Mathlib.Data.List.Count

/-!
# Delimited text

A text is a list of characters. Formats that put fields after each other behind a separator are
read back by cutting at the first separator (`splitOnce`), at the last one (`rsplitOnce`) or at the
first few (`splitN`). A field that may hold the separator itself makes the cuts come out elsewhere;
`splitN_four` says what is in the parts when there are too many separators.

Numbers are written in decimal (`showInt`) and read as 64-bit integers (`parseI64`, which takes a sign
and leading zeros), and bytes are written in hexadecimal (`hex`).
-/

namespace DiskArcana.Lib.Text

/-- One proof for whatever compares texts. -/
instance lawfulBEq : LawfulBEq (List Char) := inferInstance

/-! ## Cutting at a separator -/

variable {sep : Char} {a b s t : List Char}

/-- Cut at the first separator. -/
def splitOnce (sep : Char) : List Char → Option (List Char × List Char)
  | [] => none
  | c :: cs => if c = sep then some ([], cs) else (splitOnce sep cs).map fun p => (c :: p.1, p.2)

/-- Cut at the last separator. -/
def rsplitOnce (sep : Char) (s : List Char) : Option (List Char × List Char) :=
  (splitOnce sep s.reverse).map fun p => (p.2.reverse, p.1.reverse)

/-- Cut at the first separators into at most `n` parts; the last part is the rest. -/
def splitN (sep : Char) : ℕ → List Char → List (List Char)
  | 0, _ => []
  | 1, s => [s]
  | n + 2, s =>
    match splitOnce sep s with
    | none => [s]
    | some (part, rest) => part :: splitN sep (n + 1) rest

/-- What follows a prefix. -/
def stripPrefix (pre s : List Char) : Option (List Char) :=
  if pre <+: s then some (s.drop pre.length) else none

theorem stripPrefix_eq_some {pre : List Char} : stripPrefix pre s = some t ↔ s = pre ++ t := by
  unfold stripPrefix
  constructor
  · intro h
    split_ifs at h with hpre
    cases h
    exact (List.prefix_iff_eq_append.mp hpre).symm
  · rintro rfl
    rw [if_pos (List.prefix_append pre t), List.drop_left]

theorem splitOnce_eq_none (h : sep ∉ s) : splitOnce sep s = none := by
  induction s with
  | nil => rfl
  | cons c cs ih =>
      rw [List.mem_cons, not_or] at h
      unfold splitOnce
      rw [if_neg (Ne.symm h.1), ih h.2]
      rfl

theorem splitOnce_append (h : sep ∉ a) : splitOnce sep (a ++ sep :: b) = some (a, b) := by
  induction a with
  | nil => simp [splitOnce]
  | cons c cs ih =>
      rw [List.mem_cons, not_or] at h
      rw [List.cons_append]
      unfold splitOnce
      rw [if_neg (Ne.symm h.1), ih h.2]
      rfl

/-- A text with the separator in it is a part without it, the separator and the rest. -/
theorem exists_splitOnce (h : sep ∈ s) :
    ∃ a b, s = a ++ sep :: b ∧ sep ∉ a ∧ splitOnce sep s = some (a, b) := by
  obtain ⟨a, b, rfl, ha⟩ := List.eq_append_cons_of_mem h
  exact ⟨a, b, rfl, ha, splitOnce_append ha⟩

theorem splitOnce_eq_some : splitOnce sep s = some (a, b) ↔ s = a ++ sep :: b ∧ sep ∉ a := by
  constructor
  · intro h
    by_cases hmem : sep ∈ s
    · obtain ⟨a', b', hs, ha', hcut⟩ := exists_splitOnce hmem
      cases h.symm.trans hcut
      exact ⟨hs, ha'⟩
    · rw [splitOnce_eq_none hmem] at h
      cases h
  · rintro ⟨rfl, ha⟩
    exact splitOnce_append ha

theorem rsplitOnce_append (h : sep ∉ b) : rsplitOnce sep (a ++ sep :: b) = some (a, b) := by
  unfold rsplitOnce
  rw [List.reverse_append, List.reverse_cons, List.append_assoc, List.singleton_append,
    splitOnce_append (by simpa using h)]
  simp

theorem rsplitOnce_eq_some : rsplitOnce sep s = some (a, b) ↔ s = a ++ sep :: b ∧ sep ∉ b := by
  constructor
  · intro h
    obtain ⟨p, hp, hab⟩ := Option.map_eq_some_iff.mp h
    cases hab
    obtain ⟨hs, hnotMem⟩ := splitOnce_eq_some.mp hp
    rw [List.reverse_eq_iff] at hs
    exact ⟨by simpa using hs, by simpa using hnotMem⟩
  · rintro ⟨rfl, hb⟩
    exact rsplitOnce_append hb

theorem splitN_append {n : ℕ} (h : sep ∉ a) :
    splitN sep (n + 2) (a ++ sep :: b) = a :: splitN sep (n + 1) b := by
  rw [splitN, splitOnce_append h]

theorem splitN_of_notMem {n : ℕ} (h : sep ∉ s) : splitN sep (n + 1) s = [s] := by
  cases n with
  | zero => rfl
  | succ n => rw [splitN, splitOnce_eq_none h]

/-- With at least three separators there are four parts, and the last one holds the others. -/
theorem splitN_four (h : 3 ≤ s.count sep) :
    ∃ a b c t, splitN sep 4 s = [a, b, c, t] ∧ t.count sep + 3 = s.count sep := by
  have hcut : ∀ {s : List Char} {n : ℕ}, n + 1 ≤ s.count sep → ∃ a b, sep ∉ a ∧
      s = a ++ sep :: b ∧ s.count sep = b.count sep + 1 := by
    intro s n hn
    obtain ⟨a, b, rfl, ha, -⟩ := exists_splitOnce (List.count_pos_iff.mp (by omega : 0 < s.count sep))
    refine ⟨a, b, ha, rfl, ?_⟩
    rw [List.count_append, List.count_cons_self, List.count_eq_zero_of_not_mem ha]
    omega
  obtain ⟨a, s₁, ha, rfl, h₁⟩ := hcut h
  obtain ⟨b, s₂, hb, rfl, h₂⟩ := hcut (by omega : 1 + 1 ≤ s₁.count sep)
  obtain ⟨c, t, hc, rfl, h₃⟩ := hcut (by omega : 0 + 1 ≤ s₂.count sep)
  refine ⟨a, b, c, t, ?_, by omega⟩
  rw [splitN_append ha, splitN_append hb, splitN_append hc]
  rfl

/-! ## Decimal numbers -/

/-- A number in decimal, with a minus sign in front of a negative one. -/
def showInt : ℤ → List Char
  | .ofNat n => Nat.toDigits 10 n
  | .negSucc n => '-' :: Nat.toDigits 10 (n + 1)

/-- An unsigned decimal number: at least one digit, and only digits. -/
def parseNat (cs : List Char) : Option ℕ :=
  if cs ≠ [] ∧ cs.all Char.isDigit then some (Nat.ofDigitChars 10 cs 0) else none

/-- A decimal number with an optional sign and any number of leading zeros. -/
def parseInt : List Char → Option ℤ
  | '-' :: cs => (parseNat cs).map fun n : ℕ => -Int.ofNat n
  | '+' :: cs => (parseNat cs).map Int.ofNat
  | cs => (parseNat cs).map Int.ofNat

/-- A 64-bit signed integer. -/
def parseI64 (cs : List Char) : Option ℤ :=
  (parseInt cs).filter fun n => -2 ^ 63 ≤ n ∧ n < 2 ^ 63

theorem parseNat_toDigits (n : ℕ) : parseNat (Nat.toDigits 10 n) = some n := by
  unfold parseNat
  rw [if_pos, Nat.ofDigitChars_ten_toDigits]
  refine ⟨Nat.toDigits_ne_nil, List.all_eq_true.mpr fun c hc => ?_⟩
  exact Nat.isDigit_of_mem_toDigits (by decide) (by decide) hc

/-- A decimal number starts with a digit. -/
theorem exists_toDigits_eq_cons (n : ℕ) : ∃ c cs, Nat.toDigits 10 n = c :: cs ∧ c.isDigit = true := by
  rcases h : Nat.toDigits 10 n with _ | ⟨c, cs⟩
  · exact absurd h Nat.toDigits_ne_nil
  · refine ⟨c, cs, rfl, Nat.isDigit_of_mem_toDigits (b := 10) (n := n) (by decide) (by decide) ?_⟩
    rw [h]
    exact List.mem_cons_self

theorem parseInt_showInt (n : ℤ) : parseInt (showInt n) = some n := by
  rcases n with n | n
  · show parseInt (Nat.toDigits 10 n) = _
    obtain ⟨c, cs, hcs, hc⟩ := exists_toDigits_eq_cons n
    have hparse := parseNat_toDigits n
    rw [hcs] at hparse ⊢
    unfold parseInt
    split
    · rename_i h
      cases h
      exact absurd hc (by decide)
    · rename_i h
      cases h
      exact absurd hc (by decide)
    · rw [hparse]
      rfl
  · show (parseNat (Nat.toDigits 10 (n + 1))).map (fun n : ℕ => -Int.ofNat n) = _
    rw [parseNat_toDigits]
    rfl

/-- **Reading a written number** gives it back, within 64 bits. -/
theorem parseI64_showInt {n : ℤ} (hlo : -2 ^ 63 ≤ n) (hhi : n < 2 ^ 63) :
    parseI64 (showInt n) = some n := by
  unfold parseI64
  rw [parseInt_showInt, Option.filter_some, if_pos (by simpa using ⟨hlo, hhi⟩)]

/-- What starts with neither a digit nor a sign is not a number. -/
theorem parseI64_cons_eq_none {c : Char} (hdigit : c.isDigit = false) (hminus : c ≠ '-')
    (hplus : c ≠ '+') (cs : List Char) : parseI64 (c :: cs) = none := by
  have hnat : parseNat (c :: cs) = none := by
    unfold parseNat
    rw [List.all_cons, hdigit]
    simp
  unfold parseI64 parseInt
  split
  · rename_i h
    exact absurd (List.cons.inj h).1 hminus
  · rename_i h
    exact absurd (List.cons.inj h).1 hplus
  · rw [hnat]
    rfl

theorem notMem_showInt {c : Char} (hdigit : c.isDigit = false) (hminus : c ≠ '-') (n : ℤ) :
    c ∉ showInt n := by
  have hd : ∀ m : ℕ, c ∉ Nat.toDigits 10 m := by
    intro m hm
    rw [Nat.isDigit_of_mem_toDigits (by decide) (by decide) hm] at hdigit
    cases hdigit
  rcases n with n | n
  · exact hd n
  · unfold showInt
    rw [List.mem_cons, not_or]
    exact ⟨hminus, hd _⟩

/-! ## Hexadecimal -/

/-- A hexadecimal digit, lower case. -/
def hexDigit (n : ℕ) : Char := Nat.digitChar n

/-- Bytes in hexadecimal, two digits each. -/
def hex (bytes : List UInt8) : List Char :=
  bytes.flatMap fun b => [hexDigit (b.toNat / 16), hexDigit (b.toNat % 16)]

theorem length_hex (bytes : List UInt8) : (hex bytes).length = 2 * bytes.length := by
  simp [hex, List.length_flatMap]
  omega

/-- Only hexadecimal digits occur. -/
theorem of_mem_hex {c : Char} {bytes : List UInt8} (h : c ∈ hex bytes) :
    ∃ n < 16, c = hexDigit n := by
  unfold hex at h
  obtain ⟨b, -, hc⟩ := List.mem_flatMap.mp h
  have hb := b.toNat_lt
  simp only [List.mem_cons, List.not_mem_nil, or_false] at hc
  rcases hc with rfl | rfl
  · exact ⟨_, by omega, rfl⟩
  · exact ⟨_, by omega, rfl⟩

theorem notMem_hex {c : Char} (h : ∀ n < 16, c ≠ hexDigit n) (bytes : List UInt8) :
    c ∉ hex bytes := by
  intro hc
  obtain ⟨n, hn, rfl⟩ := of_mem_hex hc
  exact h n hn rfl

theorem hexDigit_inj {m n : ℕ} (hm : m < 16) (hn : n < 16) (h : hexDigit m = hexDigit n) :
    m = n := by
  have hall : ∀ m < 16, ∀ n < 16, hexDigit m = hexDigit n → m = n := by decide
  exact hall m hm n hn h

/-- Bytes are read off their hexadecimal digits. -/
theorem hex_injective : Function.Injective hex := by
  intro a
  induction a with
  | nil =>
      rintro (_ | ⟨y, b⟩) h
      · rfl
      · cases h
  | cons x a ih =>
      rintro (_ | ⟨y, b⟩) h
      · cases h
      · have hcons : ∀ (z : UInt8) (l : List UInt8), hex (z :: l) =
            hexDigit (z.toNat / 16) :: hexDigit (z.toNat % 16) :: hex l := fun _ _ => rfl
        rw [hcons, hcons] at h
        simp only [List.cons.injEq] at h
        obtain ⟨hhigh, hlow, htail⟩ := h
        have hx := x.toNat_lt
        have hy := y.toNat_lt
        have hdiv := hexDigit_inj (by omega) (by omega) hhigh
        have hmod := hexDigit_inj (by omega) (by omega) hlow
        have hxy : x = y := UInt8.toNat_inj.mp (by omega)
        rw [hxy, ih htail]

end DiskArcana.Lib.Text
