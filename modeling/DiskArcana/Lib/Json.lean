import Mathlib.Tactic.IntervalCases
import DiskArcana.Lib.Text

/-!
# Written JSON

Compact JSON as text: strings with their escapes (`string`), unsigned numbers (`nat`), arrays and objects
of written values. A string can be read off the front of a text (`string_append_inj`), so that an array or an
object that starts with one determines it (`array_string_cons_inj`, `object_first_inj`).
-/

namespace DiskArcana.Lib.Json

abbrev Text := List Char

/-- A character inside a string. -/
def escape (c : Char) : Text :=
  if c = '"' then ['\\', '"'] else if c = '\\' then ['\\', '\\']
  else if c = '\x08' then ['\\', 'b'] else if c = '\x09' then ['\\', 't']
  else if c = '\x0a' then ['\\', 'n'] else if c = '\x0c' then ['\\', 'f']
  else if c = '\x0d' then ['\\', 'r']
  else if c.toNat < 32 then
    ['\\', 'u', '0', '0', Text.hexDigit (c.toNat / 16), Text.hexDigit (c.toNat % 16)]
  else [c]

def string (t : Text) : Text := '"' :: t.flatMap escape ++ ['"']

def nat (n : ℕ) : Text := Nat.toDigits 10 n

/-- Written values with commas between them. -/
def joined (items : List Text) : Text := [','].intercalate items

def array (items : List Text) : Text := '[' :: joined items ++ [']']

def object (fields : List (Text × Text)) : Text :=
  '\x7b' :: joined (fields.map fun f => string f.1 ++ ':' :: f.2) ++ ['\x7d']

/-! ## Reading strings -/

def hexValue (c : Char) : ℕ := ((List.range 16).find? fun n => Text.hexDigit n = c).getD 0

/-- What a backslash stands for, and the rest. -/
def readEscape : Text → Option (Char × Text)
  | 'u' :: _ :: _ :: a :: b :: rest => some (Char.ofNat (16 * hexValue a + hexValue b), rest)
  | 'b' :: rest => some ('\x08', rest)
  | 't' :: rest => some ('\x09', rest)
  | 'n' :: rest => some ('\x0a', rest)
  | 'f' :: rest => some ('\x0c', rest)
  | 'r' :: rest => some ('\x0d', rest)
  | c :: rest => some (c, rest)
  | [] => none

/-- The escaped character in front of a text, and the rest. -/
def readChar : Text → Option (Char × Text)
  | [] => none
  | c :: rest => if c = '\\' then readEscape rest else some (c, rest)

theorem escape_of_plain {c : Char} (hcontrol : 32 ≤ c.toNat) (hquote : c ≠ '"') (hback : c ≠ '\\') :
    escape c = [c] := by
  have hne : ∀ d : Char, d.toNat < 32 → c ≠ d := by
    rintro d hd rfl
    exact absurd hcontrol (Nat.not_le.mpr hd)
  unfold escape
  rw [if_neg hquote, if_neg hback, if_neg (hne _ (by decide)), if_neg (hne _ (by decide)),
    if_neg (hne _ (by decide)), if_neg (hne _ (by decide)), if_neg (hne _ (by decide)),
    if_neg (Nat.not_lt.mpr hcontrol)]

/-- A string without escapes is two quotation marks longer. -/
theorem length_string {t : Text} (h : ∀ c ∈ t, escape c = [c]) : (string t).length = t.length + 2 := by
  have hplain : t.flatMap escape = t := by
    induction t with
    | nil => rfl
    | cons c t ih =>
        obtain ⟨hc, ht⟩ := List.forall_mem_cons.mp h
        rw [List.flatMap_cons, hc, ih ht, List.singleton_append]
  rw [string, hplain, List.length_append, List.length_cons, List.length_singleton]

theorem readChar_escape (c : Char) (rest : Text) : readChar (escape c ++ rest) = some (c, rest) := by
  by_cases hcontrol : c.toNat < 32
  · have hall : ∀ n < 32, readChar (escape (Char.ofNat n) ++ rest) = some (Char.ofNat n, rest) := by
      intro n hn
      interval_cases n <;> rfl
    simpa using hall c.toNat hcontrol
  · by_cases hquote : c = '"'
    · subst hquote
      rfl
    · by_cases hback : c = '\\'
      · subst hback
        rfl
      · rw [escape_of_plain (Nat.not_lt.mp hcontrol) hquote hback]
        exact if_neg hback

theorem escape_append_inj {c d : Char} {x y : Text} (h : escape c ++ x = escape d ++ y) :
    c = d ∧ x = y := by
  have hread := readChar_escape c x
  rw [h, readChar_escape] at hread
  simp only [Option.some.injEq, Prod.mk.injEq] at hread
  exact ⟨hread.1.symm, hread.2.symm⟩

/-- No escaped character starts with a quotation mark. -/
theorem escape_append_ne_quote (c : Char) (x y : Text) : escape c ++ x ≠ '"' :: y := by
  intro h
  have hread := readChar_escape c x
  rw [h] at hread
  have hquote : some ('"', y) = some (c, x) := hread
  cases hquote
  cases h

/-- **A string ends where it ends**: what is written behind it does not matter. -/
theorem string_append_inj {s t x y : Text} : string s ++ x = string t ++ y ↔ s = t ∧ x = y := by
  constructor
  · intro h
    simp only [string, List.cons_append, List.append_assoc, List.cons.injEq, true_and,
      List.nil_append] at h
    induction s generalizing t with
    | nil =>
        rcases t with _ | ⟨d, t⟩
        · simpa using h
        · simp only [List.flatMap_nil, List.nil_append, List.flatMap_cons, List.append_assoc] at h
          exact absurd h.symm (escape_append_ne_quote d _ _)
    | cons c s ih =>
        rcases t with _ | ⟨d, t⟩
        · simp only [List.flatMap_nil, List.nil_append, List.flatMap_cons, List.append_assoc] at h
          exact absurd h (escape_append_ne_quote c _ _)
        · simp only [List.flatMap_cons, List.append_assoc] at h
          obtain ⟨rfl, htail⟩ := escape_append_inj h
          obtain ⟨rfl, rfl⟩ := ih htail
          exact ⟨rfl, rfl⟩
  · rintro ⟨rfl, rfl⟩
    rfl

theorem string_inj {s t : Text} : string s = string t ↔ s = t := by
  have h := string_append_inj (s := s) (t := t) (x := []) (y := [])
  simpa using h

/-! ## Arrays and objects -/

theorem joined_cons_cons (a b : Text) (items : List Text) :
    joined (a :: b :: items) = a ++ ',' :: joined (b :: items) := by
  simp [joined, List.intercalate]

theorem array_singleton_inj {a b : Text} : array [a] = array [b] ↔ a = b := by
  simp [array, joined, List.intercalate]

/-- An array that starts with a string determines the string and the array behind it. -/
theorem array_string_cons_inj {s t a b : Text} {x y : List Text} :
    array (string s :: a :: x) = array (string t :: b :: y) ↔ s = t ∧ array (a :: x) = array (b :: y) := by
  unfold array
  rw [joined_cons_cons, joined_cons_cons]
  constructor
  · intro h
    simp only [List.cons_append, List.append_assoc, List.cons.injEq, true_and,
      string_append_inj] at h
    obtain ⟨rfl, htail⟩ := h
    simp [htail]
  · rintro ⟨rfl, h⟩
    simp only [List.cons_append, List.cons.injEq, true_and] at h
    simp [h]

/-- Objects with the same first key have the same string under it, when one is written there. -/
theorem object_first_inj {k s t : Text} {f g : Text × Text} {fs gs : List (Text × Text)}
    (h : object ((k, string s) :: f :: fs) = object ((k, string t) :: g :: gs)) : s = t := by
  unfold object at h
  simp only [List.map_cons, joined_cons_cons, List.cons_append, List.append_assoc, List.cons.injEq,
    true_and, string_append_inj] at h
  exact h.1

/-! ## Reading arrays -/

/-- What follows a value inside an array or an object does not continue it. -/
def Ends (s : Text) : Prop := ∀ c ∈ s.head?, c.isDigit = false

/-- Of two written values each can be read off the front of a text. -/
def Delimits (a b : Text) : Prop :=
  ∀ ⦃x y : Text⦄, Ends x → Ends y → a ++ x = b ++ y → a = b ∧ x = y

theorem ends_comma (s : Text) : Ends (',' :: s) := by
  rintro c ⟨⟩
  rfl

theorem ends_bracket (s : Text) : Ends (']' :: s) := by
  rintro c ⟨⟩
  rfl

theorem delimits_string (s t : Text) : Delimits (string s) (string t) := by
  intro x y _ _ h
  obtain ⟨rfl, rfl⟩ := string_append_inj.mp h
  exact ⟨rfl, rfl⟩

theorem takeWhile_nat_append {n : ℕ} {x : Text} (h : Ends x) :
    (nat n ++ x).takeWhile Char.isDigit = nat n := by
  have hdigits : ∀ c ∈ nat n, c.isDigit = true :=
    fun c hc => Nat.isDigit_of_mem_toDigits (by decide) (by decide) hc
  rw [List.takeWhile_append_of_pos hdigits]
  rcases x with _ | ⟨c, x⟩
  · rw [List.takeWhile_nil, List.append_nil]
  · rw [List.takeWhile_cons_of_neg (by rw [h c rfl]; decide), List.append_nil]

/-- A number ends at the first character that is no digit. -/
theorem delimits_nat (m n : ℕ) : Delimits (nat m) (nat n) := by
  intro x y hx hy h
  have hnat := congrArg (List.takeWhile Char.isDigit) h
  rw [takeWhile_nat_append hx, takeWhile_nat_append hy] at hnat
  rw [hnat] at h
  exact ⟨hnat, List.append_cancel_left h⟩

theorem nat_inj {m n : ℕ} : nat m = nat n ↔ m = n := by
  constructor
  · intro h
    rw [← Nat.ofDigitChars_ten_toDigits (n := m), ← Nat.ofDigitChars_ten_toDigits (n := n)]
    exact congrArg (fun digits => Nat.ofDigitChars 10 digits 0) h
  · rintro rfl
    rfl

theorem joined_singleton (a : Text) : joined [a] = a := by simp [joined, List.intercalate]

/-- Items with commas between them and a bracket behind them are read one by one. -/
theorem joined_bracket_inj {a b : Text} {as bs : List Text} {x y : Text}
    (hitems : ∀ p ∈ (a :: as).zip (b :: bs), Delimits p.1 p.2)
    (h : joined (a :: as) ++ ']' :: x = joined (b :: bs) ++ ']' :: y) :
    a :: as = b :: bs ∧ x = y := by
  induction as generalizing a b bs with
  | nil =>
      have hfirst : Delimits a b := hitems (a, b) List.mem_cons_self
      rw [joined_singleton] at h
      rcases bs with _ | ⟨b', bs⟩
      · rw [joined_singleton] at h
        obtain ⟨rfl, htail⟩ := hfirst (ends_bracket x) (ends_bracket y) h
        exact ⟨rfl, (List.cons.inj htail).2⟩
      · rw [joined_cons_cons, List.append_assoc, List.cons_append] at h
        have htail := (hfirst (ends_bracket x) (ends_comma _) h).2
        cases (List.cons.inj htail).1
  | cons a' as ih =>
      have hfirst : Delimits a b := hitems (a, b) List.mem_cons_self
      rw [joined_cons_cons, List.append_assoc, List.cons_append] at h
      rcases bs with _ | ⟨b', bs⟩
      · rw [joined_singleton] at h
        have htail := (hfirst (ends_comma _) (ends_bracket y) h).2
        cases (List.cons.inj htail).1
      · rw [joined_cons_cons, List.append_assoc, List.cons_append] at h
        obtain ⟨rfl, htail⟩ := hfirst (ends_comma _) (ends_comma _) h
        obtain ⟨hrest, hxy⟩ := ih (fun p hp => hitems p (List.mem_cons_of_mem _ hp))
          (List.cons.inj htail).2
        exact ⟨by rw [hrest], hxy⟩

/-- **An array determines its items** and ends where it ends, when each item can be read off. -/
theorem array_append_inj {a b : Text} {as bs : List Text} {x y : Text}
    (hitems : ∀ p ∈ (a :: as).zip (b :: bs), Delimits p.1 p.2)
    (h : array (a :: as) ++ x = array (b :: bs) ++ y) : a :: as = b :: bs ∧ x = y := by
  simp only [array, List.cons_append, List.append_assoc, List.nil_append, List.cons.injEq,
    true_and] at h
  have hread := joined_bracket_inj hitems h
  exact ⟨hread.1, hread.2⟩

theorem delimits_array {a b : Text} {as bs : List Text}
    (hitems : ∀ p ∈ (a :: as).zip (b :: bs), Delimits p.1 p.2) :
    Delimits (array (a :: as)) (array (b :: bs)) := by
  intro x y _ _ h
  obtain ⟨hitems, hxy⟩ := array_append_inj hitems h
  exact ⟨congrArg array hitems, hxy⟩

theorem array_cons_inj {a b : Text} {as bs : List Text}
    (hitems : ∀ p ∈ (a :: as).zip (b :: bs), Delimits p.1 p.2) :
    array (a :: as) = array (b :: bs) ↔ a :: as = b :: bs := by
  constructor
  · intro h
    apply (array_append_inj (x := []) (y := []) hitems _).1
    rw [h]
  · intro h
    rw [h]

/-! ## Lengths -/

theorem length_joined (a : Text) (as : List Text) :
    (joined (a :: as)).length = ((a :: as).map List.length).sum + as.length := by
  induction as generalizing a with
  | nil => rw [joined_singleton, List.map_singleton, List.sum_singleton, List.length_nil, Nat.add_zero]
  | cons b as ih =>
      rw [joined_cons_cons, List.length_append, List.length_cons, ih, List.map_cons (l := b :: as),
        List.sum_cons, List.length_cons]
      omega

theorem length_array (a : Text) (as : List Text) :
    (array (a :: as)).length = ((a :: as).map List.length).sum + as.length + 2 := by
  rw [array, List.length_append, List.length_cons, length_joined, List.length_singleton]

theorem length_object (f : Text × Text) (fs : List (Text × Text)) :
    (object (f :: fs)).length =
      ((f :: fs).map fun g => (string g.1).length + 1 + g.2.length).sum + fs.length + 2 := by
  have hlength : (List.length ∘ fun g : Text × Text => string g.1 ++ ':' :: g.2) =
      fun g => (string g.1).length + 1 + g.2.length := by
    funext g
    rw [Function.comp_apply, List.length_append, List.length_cons]
    omega
  rw [← hlength, ← List.map_map, object, List.map_cons, List.length_append, List.length_cons,
    length_joined, List.length_singleton, List.length_map]

theorem length_nat_le {n k : ℕ} (hk : 0 < k) : (nat n).length ≤ k ↔ n < 10 ^ k :=
  Nat.length_toDigits_le_iff (by decide) hk

end DiskArcana.Lib.Json
