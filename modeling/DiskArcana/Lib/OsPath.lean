import DiskArcana.Lib.Bytes

/-!
# Paths of bytes

A path of a Unix file system is a string of bytes, names joined by slashes. `components` cuts such a
string into its names (`components_toBytes`). `toStr` is the text of a string that is UTF-8, and
`toStringLossy` makes a text of every string, with replacement characters where it is not UTF-8.
-/

namespace DiskArcana.Lib.OsPath

/-! ## Bytes and text -/

/-- The bytes of a text. -/
def utf8 (t : List Char) : List UInt8 := t.flatMap String.utf8EncodeChar

/-- The text of some bytes, if they are UTF-8: `Path::to_str`. -/
def toStr (b : List UInt8) : Option (List Char) := b.toByteArray.utf8Decode?.map Array.toList

/-- A byte that goes on with a character. -/
def isContinuation (b : UInt8) : Bool := 0x80 ≤ b && b ≤ 0xBF

/-- A second byte of a character of three or four bytes, after its first one. -/
def isSecond (first second : UInt8) : Bool :=
  (first == 0xE0 && 0xA0 ≤ second && second ≤ 0xBF) ||
  (0xE1 ≤ first && first ≤ 0xEC && isContinuation second) ||
  (first == 0xED && 0x80 ≤ second && second ≤ 0x9F) ||
  (0xEE ≤ first && first ≤ 0xEF && isContinuation second) ||
  (first == 0xF0 && 0x90 ≤ second && second ≤ 0xBF) ||
  (0xF1 ≤ first && first ≤ 0xF3 && isContinuation second) ||
  (first == 0xF4 && 0x80 ≤ second && second ≤ 0x8F)

/-- How many bytes one replacement character stands for: the beginning of a character that does not
go on, and one byte where none begins. -/
def brokenLen (b : List UInt8) : ℕ :=
  if isSecond (b.getD 0 0) (b.getD 1 0) then
    if 0xF0 ≤ b.getD 0 0 && isContinuation (b.getD 2 0) then 3 else 2
  else 1

theorem brokenLen_pos (b : List UInt8) : 0 < brokenLen b := by
  unfold brokenLen
  split_ifs <;> omega

/-- The text of any bytes: `to_string_lossy`. -/
def toStringLossy : List UInt8 → List Char
  | [] => []
  | b :: bs =>
    match (b :: bs).toByteArray.utf8DecodeChar? 0 with
    | some c => c :: toStringLossy ((b :: bs).drop c.utf8Size)
    | none => '\uFFFD' :: toStringLossy ((b :: bs).drop (brokenLen (b :: bs)))
termination_by b => b.length
decreasing_by
  · have := c.utf8Size_pos
    simp only [List.length_drop, List.length_cons]
    omega
  · have := brokenLen_pos (b :: bs)
    simp only [List.length_drop, List.length_cons]
    omega

variable {b : List UInt8} {t : List Char}

theorem toStr_utf8 (t : List Char) : toStr (utf8 t) = some t := by
  have hencode : (utf8 t).toByteArray = t.utf8Encode := rfl
  unfold toStr
  rw [hencode, List.utf8Decode?_utf8Encode]
  rfl

theorem toStr_eq_some_iff : toStr b = some t ↔ b = utf8 t := by
  constructor
  · intro h
    obtain ⟨chars, hchars, rfl⟩ := Option.map_eq_some_iff.mp h
    obtain ⟨t, ht⟩ := ByteArray.isSome_utf8Decode?_iff.mp (Option.isSome_iff_exists.mpr ⟨chars, hchars⟩)
    rw [ht, List.utf8Decode?_utf8Encode] at hchars
    obtain rfl := Option.some.inj hchars
    have hbytes := congrArg (fun x : ByteArray => x.data.toList) ht
    simpa [utf8, List.utf8Encode] using hbytes
  · rintro rfl
    exact toStr_utf8 t

theorem utf8_injective : Function.Injective utf8 := by
  intro t t' h
  exact Option.some.inj ((toStr_utf8 t).symm.trans ((congrArg toStr h).trans (toStr_utf8 t')))

/-- Of UTF-8 nothing is lost. -/
theorem toStringLossy_utf8 (t : List Char) : toStringLossy (utf8 t) = t := by
  induction t with
  | nil => simp [utf8, toStringLossy]
  | cons c t ih =>
      have hutf8 : utf8 (c :: t) = String.utf8EncodeChar c ++ utf8 t := rfl
      have hdecode : (utf8 (c :: t)).toByteArray.utf8DecodeChar? 0 = some c := by
        rw [hutf8, List.toByteArray_append]
        exact ByteArray.utf8DecodeChar?_utf8EncodeChar_append
      have hdrop : (utf8 (c :: t)).drop c.utf8Size = utf8 t := by
        rw [hutf8, ← String.length_utf8EncodeChar, List.drop_left]
      rcases hbytes : utf8 (c :: t) with _ | ⟨b, bs⟩
      · have hlength := congrArg List.length (hutf8.symm.trans hbytes)
        rw [List.length_append, String.length_utf8EncodeChar, List.length_nil] at hlength
        have := c.utf8Size_pos
        omega
      · rw [hbytes] at hdecode hdrop
        rw [toStringLossy, hdecode]
        simp only [hdrop, ih]

/-- Replacing a character that a text does not have. -/
theorem map_replace_of_notMem {old new : Char} (h : old ∉ t) :
    (t.map fun c => if c = old then new else c) = t := by
  conv_rhs => rw [← List.map_id t]
  apply List.map_congr_left
  intro c hc
  apply if_neg
  rintro rfl
  exact h hc

/-! ## Components -/

section Split

variable {α : Type} [DecidableEq α] {sep : α}

/-- Cut a list at a separator. -/
def splitAt (sep : α) : List α → List (List α)
  | [] => [[]]
  | a :: l =>
    if a = sep then [] :: splitAt sep l
    else match splitAt sep l with
      | [] => [[a]]
      | part :: parts => (a :: part) :: parts

theorem splitAt_ne_nil (l : List α) : splitAt sep l ≠ [] := by
  rcases l with _ | ⟨a, l⟩
  · simp [splitAt]
  · unfold splitAt
    split_ifs
    · simp
    · split <;> simp

theorem splitAt_append {part : List α} (hpart : sep ∉ part) (l : List α) :
    splitAt sep (part ++ sep :: l) = part :: splitAt sep l := by
  induction part with
  | nil => simp [splitAt]
  | cons a part ih =>
      rw [List.mem_cons, not_or] at hpart
      obtain ⟨ha, hpart⟩ := hpart
      rw [List.cons_append, splitAt, if_neg (Ne.symm ha), ih hpart]

/-- What comes before the first cut. -/
theorem splitAt_append_of_notMem {start : List α} (hstart : sep ∉ start) (l : List α) :
    splitAt sep (start ++ l) =
      match splitAt sep l with
      | [] => [start]
      | part :: parts => (start ++ part) :: parts := by
  induction start with
  | nil =>
      rcases h : splitAt sep l with _ | ⟨part, parts⟩
      · exact absurd h (splitAt_ne_nil l)
      · exact h
  | cons a start ih =>
      rw [List.mem_cons, not_or] at hstart
      obtain ⟨ha, hstart⟩ := hstart
      rw [List.cons_append, splitAt, if_neg (Ne.symm ha), ih hstart]
      rcases splitAt sep l with _ | ⟨part, parts⟩ <;> rfl

theorem splitAt_of_notMem {l : List α} (h : sep ∉ l) : splitAt sep l = [l] := by
  induction l with
  | nil => rfl
  | cons a l ih =>
      rw [List.mem_cons, not_or] at h
      obtain ⟨ha, hl⟩ := h
      rw [splitAt, if_neg (Ne.symm ha), ih hl]

/-- Parts that are joined by a separator that none of them has are cut apart again. -/
theorem splitAt_intercalate {parts : List (List α)} (hne : parts ≠ []) (hparts : ∀ p ∈ parts, sep ∉ p) :
    splitAt sep ([sep].intercalate parts) = parts := by
  induction parts with
  | nil => exact absurd rfl hne
  | cons part parts ih =>
      have hpart := hparts part List.mem_cons_self
      rcases parts with _ | ⟨next, parts⟩
      · rw [List.intercalate_singleton]
        exact splitAt_of_notMem hpart
      · have hrest := ih (List.cons_ne_nil _ _) fun p hp => hparts p (List.mem_cons_of_mem _ hp)
        rw [List.intercalate_cons_cons, List.append_assoc, List.singleton_append,
          splitAt_append hpart, hrest]

/-- A text with a separator in it is cut there, and before and after it. -/
theorem splitAt_append_sep (l r : List α) :
    splitAt sep (l ++ sep :: r) = splitAt sep l ++ splitAt sep r := by
  induction l with
  | nil => simp [splitAt]
  | cons a l ih =>
      rw [List.cons_append, splitAt, splitAt, ih]
      split_ifs
      · rfl
      · rcases h : splitAt sep l with _ | ⟨part, parts⟩
        · exact absurd h (splitAt_ne_nil l)
        · rfl

theorem intercalate_splitAt (l : List α) : [sep].intercalate (splitAt sep l) = l := by
  induction l with
  | nil => rfl
  | cons a l ih =>
      rw [splitAt]
      rcases h : splitAt sep l with _ | ⟨part, parts⟩
      · exact absurd h (splitAt_ne_nil l)
      · rw [h] at ih
        split_ifs with ha
        · rw [List.intercalate_cons_cons, ih, ha]
          rfl
        · rcases parts with _ | ⟨next, parts⟩
          · rw [List.intercalate_singleton] at ih ⊢
            rw [ih]
          · rw [List.intercalate_cons_cons] at ih ⊢
            rw [← ih]
            rfl

omit [DecidableEq α] in
theorem intercalate_append {ps qs : List (List α)} (hps : ps ≠ []) (hqs : qs ≠ []) :
    [sep].intercalate (ps ++ qs) = [sep].intercalate ps ++ sep :: [sep].intercalate qs := by
  induction ps with
  | nil => exact absurd rfl hps
  | cons p ps ih =>
      rcases ps with _ | ⟨p', ps⟩
      · rw [List.singleton_append, List.intercalate_cons_of_ne_nil hqs, List.intercalate_singleton,
          List.append_assoc, List.singleton_append]
      · rw [List.cons_append, List.intercalate_cons_of_ne_nil (by simp), ih (List.cons_ne_nil _ _),
          List.intercalate_cons_cons, List.append_assoc, List.append_assoc, List.append_assoc]

/-- A text starts with the parts of another if it is this, or has it in front of a separator. -/
theorem splitAt_prefix_iff {l r : List α} :
    splitAt sep l <+: splitAt sep r ↔ r = l ∨ l ++ [sep] <+: r := by
  constructor
  · rintro ⟨parts, hparts⟩
    have hr : [sep].intercalate (splitAt sep r) = r := intercalate_splitAt r
    rw [← hparts] at hr
    rcases parts with _ | ⟨part, parts⟩
    · left
      rw [← hr, List.append_nil, intercalate_splitAt]
    · right
      rw [intercalate_append (splitAt_ne_nil l) (List.cons_ne_nil _ _), intercalate_splitAt] at hr
      refine ⟨[sep].intercalate (part :: parts), ?_⟩
      rw [List.append_assoc, List.singleton_append, hr]
  · rintro (rfl | ⟨rest, rfl⟩)
    · exact List.prefix_rfl
    · rw [List.append_assoc, List.singleton_append, splitAt_append_sep]
      exact List.prefix_append _ _

end Split

def slash : UInt8 := 0x2F

def dot : UInt8 := 0x2E

/-- A text is cut at its slashes as its bytes are. -/
theorem splitAt_utf8 (t : List Char) : splitAt slash (utf8 t) = (splitAt '/' t).map utf8 := by
  induction t with
  | nil => rfl
  | cons c t ih =>
      have hutf8 : utf8 (c :: t) = String.utf8EncodeChar c ++ utf8 t := rfl
      by_cases hc : c = '/'
      · subst hc
        rw [hutf8, splitAt, if_pos rfl, List.map_cons, ← ih]
        rfl
      · have hother : slash ∉ String.utf8EncodeChar c := by
          apply Bytes.ascii_notMem_utf8EncodeChar (by decide)
          intro hsame
          exact hc (Char.ext (UInt32.toNat_inj.mp hsame))
        rw [hutf8, splitAt, if_neg hc, splitAt_append_of_notMem hother, ih]
        rcases splitAt '/' t with _ | ⟨part, parts⟩
        · simp [utf8]
        · simp [utf8]

/-- The components of a path: slashes in a row count as one, and a `.` is kept only at the start of
a relative path. -/
def components (b : List UInt8) : List (List UInt8) :=
  let parts := (splitAt slash b).filter (· ≠ [])
  if b.head? = some slash then [slash] :: parts.filter (· ≠ [dot])
  else parts.head?.toList ++ parts.tail.filter (· ≠ [dot])

/-- What a directory entry can be called. -/
def IsName (name : List UInt8) : Prop :=
  name ≠ [] ∧ slash ∉ name ∧ 0 ∉ name ∧ name ≠ [dot] ∧ name ≠ [dot, dot]

instance (name : List UInt8) : Decidable (IsName name) := inferInstanceAs (Decidable (_ ∧ _))

/-- The path of an entry below a directory. -/
structure RelPath where
  names : List (List UInt8)
  ne_nil : names ≠ []
  isName : ∀ name ∈ names, IsName name

namespace RelPath

def toBytes (p : RelPath) : List UInt8 := [slash].intercalate p.names

theorem splitAt_toBytes (p : RelPath) : splitAt slash p.toBytes = p.names :=
  splitAt_intercalate p.ne_nil fun name hname => (p.isName name hname).2.1

theorem head?_toBytes (p : RelPath) : p.toBytes.head? ≠ some slash := by
  intro h
  have hsplit := p.splitAt_toBytes
  rcases hbytes : p.toBytes with _ | ⟨b, bs⟩
  · rw [hbytes] at h
    cases h
  · rw [hbytes] at h hsplit
    obtain rfl := Option.some.inj h
    rw [splitAt, if_pos rfl] at hsplit
    exact (p.isName [] (hsplit ▸ List.mem_cons_self)).1 rfl

theorem components_toBytes (p : RelPath) : components p.toBytes = p.names := by
  have hparts : p.names.filter (· ≠ []) = p.names := by
    rw [List.filter_eq_self]
    intro name hname
    simpa using (p.isName name hname).1
  have hdots : p.names.tail.filter (· ≠ [dot]) = p.names.tail := by
    rw [List.filter_eq_self]
    intro name hname
    simpa using (p.isName name (List.mem_of_mem_tail hname)).2.2.2.1
  simp only [components, splitAt_toBytes, hparts, if_neg p.head?_toBytes, hdots]
  rcases hnames : p.names with _ | ⟨name, names⟩
  · exact absurd hnames p.ne_nil
  · rfl

theorem ext_of_toBytes {p q : RelPath} (h : p.toBytes = q.toBytes) : p = q := by
  have hnames : p.names = q.names := by rw [← p.splitAt_toBytes, h, q.splitAt_toBytes]
  obtain ⟨names, _, _⟩ := p
  obtain ⟨names', _, _⟩ := q
  cases hnames
  rfl

end RelPath

end DiskArcana.Lib.OsPath
