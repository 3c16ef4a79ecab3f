import DiskArcana.Acl.Loader
import DiskArcana.Lib.OsPath
import DiskArcana.Lib.Vectors
import Mathlib.Data.List.GetD

/-!
# The fingerprints that are read

A fingerprint is 64 hexadecimal digits, with `sha256:` in front of them or not (`IsFingerprint`). The
loader takes its slices by bytes and reads each with a parser of numbers (`acl/loader.rs`), which takes
a plus sign in front of a digit, and a slice that ends within a character panics. `Accurate` says of a
text that neither comes up, and `fingerprintLaw_iff` that the loader then reads what is written, and
only then.
-/

namespace DiskArcana.Acl

open DiskArcana.Core DiskArcana.Lib

/-! ## What a fingerprint is -/

/-- The value of a hexadecimal digit. -/
def hexValue (c : Char) : Option ℕ :=
  if '0' ≤ c ∧ c ≤ '9' then some (c.toNat - '0'.toNat)
  else if 'a' ≤ c ∧ c ≤ 'f' then some (c.toNat - 'a'.toNat + 10)
  else if 'A' ≤ c ∧ c ≤ 'F' then some (c.toNat - 'A'.toNat + 10)
  else none

/-- A text of 64 hexadecimal digits, two a byte. -/
structure Denotes (digits : List Char) (fp : CertFingerprint) : Prop where
  length : digits.length = 64
  value : ∀ i : Fin 32, ∃ high low, (digits[i.val * 2]?).bind hexValue = some high ∧
    (digits[i.val * 2 + 1]?).bind hexValue = some low ∧ (fp.get i).toNat = 16 * high + low

/-- Fingerprints as they are written in the file. -/
def IsFingerprint (raw : String) (fp : CertFingerprint) : Prop :=
  ∃ digits, Denotes digits fp ∧
    (raw.toList = digits ∨ raw.toList = "sha256:".toList ++ digits)

/-- A text is read for what it is: a fingerprint as its value, anything else as an error. -/
structure FingerprintLaw (index : ℕ) (raw : String) : Prop where
  accepts : ∀ fp, parseFingerprint index raw = .ok fp ↔ IsFingerprint raw fp
  rejects : (∀ fp, ¬ IsFingerprint raw fp) → ∃ e, parseFingerprint index raw = .error (.error e)

/-! ## What the loader reads -/

/-- The text behind the optional prefix, as it is cut into slices. -/
def hexChars (raw : String) : List Char :=
  if "sha256:".toList.isPrefixOf raw.toList then raw.toList.drop "sha256:".toList.length
  else raw.toList

/-- The bytes of that text. -/
def hexBytes (raw : String) : Bytes := OsPath.utf8 (hexChars raw)

/-- The number parser takes the slice with number `i`. -/
abbrev GroupRead (bytes : Bytes) (i : Fin 32) : Prop :=
  (fromStrRadix16 (bytes.getD (i * 2) 0) (bytes.getD (i * 2 + 1) 0)).isSome

/-- If the text is 64 bytes long: no plus sign stands first in a slice when all slices are taken, and
where a slice ends that only taken ones are in front of, a character ends. -/
structure Accurate (raw : String) : Prop where
  noSign : (hexBytes raw).length = 64 → (∀ i, GroupRead (hexBytes raw) i) →
    ∀ i : Fin 32, (hexBytes raw).getD (i * 2) 0 ≠ 43
  noCut : (hexBytes raw).length = 64 → ∀ i : Fin 32, (∀ j < i, GroupRead (hexBytes raw) j) →
    isCharBoundary (hexBytes raw) (i * 2 + 2)

variable {index : ℕ} {raw : String} {fp : CertFingerprint} {bytes : Bytes}

theorem parseFingerprint_eq (h : (hexBytes raw).length = 64) :
    parseFingerprint index raw =
      (List.Vector.ofFn fun i : Fin 32 => i).mmap (parseFingerprintByte index (hexBytes raw)) :=
  if_neg (not_not.mpr h)

theorem parseFingerprint_of_length (index : ℕ) (h : (hexBytes raw).length ≠ 64) :
    ∃ e, parseFingerprint index raw = .error (.error e) :=
  ⟨_, if_pos h⟩

/-! ## Digits as characters and as bytes -/

theorem hexValue_ofNat (b : UInt8) :
    hexValue (Char.ofNat b.toNat) = (hexDigit b).map UInt8.toNat := by
  have hall : ∀ n : Fin 256, hexValue (Char.ofNat n.val) =
      (hexDigit (UInt8.ofNat n.val)).map UInt8.toNat := by decide +kernel
  have h := hall ⟨b.toNat, b.toNat_lt⟩
  rwa [UInt8.ofNat_toNat] at h

theorem lt_of_hexDigit {b v : UInt8} (h : hexDigit b = some v) : b.toNat < 128 ∧ v.toNat < 16 := by
  have hall : ∀ n : Fin 256, ((hexDigit (UInt8.ofNat n.val)).all fun v =>
      decide (n.val < 128 ∧ v.toNat < 16)) = true := by decide +kernel
  have hb := hall ⟨b.toNat, b.toNat_lt⟩
  rw [UInt8.ofNat_toNat, h] at hb
  exact of_decide_eq_true hb

theorem hexDigit_ne_plus {b v : UInt8} (h : hexDigit b = some v) : b ≠ 43 := by
  rintro rfl
  have hnone : hexDigit 43 = none := by decide
  exact absurd (hnone.symm.trans h) (Option.some_ne_none v).symm

/-- Two digits do not overflow a byte. -/
theorem toNat_pair {a b high low : UInt8} (ha : hexDigit a = some high) (hb : hexDigit b = some low) :
    (16 * high + low).toNat = 16 * high.toNat + low.toNat := by
  have hhigh := (lt_of_hexDigit ha).2
  have hlow := (lt_of_hexDigit hb).2
  rw [UInt8.toNat_add, UInt8.toNat_mul]
  simp only [UInt8.reduceToNat]
  omega

theorem toNat_lt_of_hexValue {c : Char} {x : ℕ} (h : hexValue c = some x) : c.toNat < 128 := by
  unfold hexValue at h
  have hle : ∀ d : Char, c ≤ d → c.toNat ≤ d.toNat := fun d hd => hd
  split_ifs at h with h0 ha hA
  · exact lt_of_le_of_lt (hle '9' h0.2) (by decide)
  · exact lt_of_le_of_lt (hle 'f' ha.2) (by decide)
  · exact lt_of_le_of_lt (hle 'F' hA.2) (by decide)

theorem utf8EncodeChar_of_lt {c : Char} (h : c.toNat < 128) :
    String.utf8EncodeChar c = [UInt8.ofNat c.toNat] := by
  rw [String.utf8EncodeChar_eq_singleton]
  · rfl
  · rw [Char.utf8Size_eq_one_iff]
    exact Nat.lt_succ_iff.mp h

/-- A text of ASCII characters has a byte for each. -/
theorem utf8_of_lt {t : List Char} (h : ∀ c ∈ t, c.toNat < 128) :
    OsPath.utf8 t = t.map fun c => UInt8.ofNat c.toNat := by
  induction t with
  | nil => rfl
  | cons c t ih =>
      have hcons : OsPath.utf8 (c :: t) = String.utf8EncodeChar c ++ OsPath.utf8 t := rfl
      rw [hcons, ih fun d hd => h d (List.mem_cons_of_mem c hd),
        utf8EncodeChar_of_lt (h c List.mem_cons_self)]
      rfl

/-- Bytes below 128 are the characters of their numbers. -/
theorem eq_map_of_utf8 {t : List Char} (h : ∀ b ∈ OsPath.utf8 t, b.toNat < 128) :
    t = (OsPath.utf8 t).map fun b => Char.ofNat b.toNat := by
  have hall : ∀ n : Fin 128, (Char.ofNat n.val).toNat = n.val := by decide +kernel
  have hchar : ∀ b ∈ OsPath.utf8 t, (Char.ofNat b.toNat).toNat = b.toNat :=
    fun b hb => hall ⟨b.toNat, h b hb⟩
  have hlow : ∀ c ∈ (OsPath.utf8 t).map fun b => Char.ofNat b.toNat, c.toNat < 128 := by
    intro c hc
    obtain ⟨b, hb, rfl⟩ := List.mem_map.mp hc
    rw [hchar b hb]
    exact h b hb
  apply OsPath.utf8_injective
  rw [utf8_of_lt hlow, List.map_map]
  conv_lhs => rw [← List.map_id (OsPath.utf8 t)]
  apply List.map_congr_left
  intro b hb
  show b = UInt8.ofNat (Char.ofNat b.toNat).toNat
  rw [hchar b hb, UInt8.ofNat_toNat]

/-! ## Where characters end -/

theorem isCharBoundary_length : isCharBoundary bytes bytes.length := by
  unfold isCharBoundary
  rw [List.drop_length]
  exact beq_self_eq_true _

theorem isCharBoundary_of_lt {k : ℕ} (hk : k < bytes.length) (h : (bytes.getD k 0).toNat < 128) :
    isCharBoundary bytes k := by
  have hall : ∀ n : Fin 256, n.val < 128 → (UInt8.ofNat n.val &&& 0xC0 != 0x80) := by decide +kernel
  unfold isCharBoundary
  rw [List.drop_eq_getElem_cons hk]
  rw [List.getD_eq_getElem bytes 0 hk] at h
  have hbyte := hall ⟨bytes[k].toNat, bytes[k].toNat_lt⟩ h
  rwa [UInt8.ofNat_toNat] at hbyte

theorem isCharBoundary_zero (t : List Char) : isCharBoundary (OsPath.utf8 t) 0 := by
  have hall : ∀ n : Fin 256, (UInt8.ofNat n.val).IsUTF8FirstByte →
      (UInt8.ofNat n.val &&& 0xC0 != 0x80) := by decide +kernel
  cases t with
  | nil => rfl
  | cons c t =>
      have hcons : OsPath.utf8 (c :: t) = String.utf8EncodeChar c ++ OsPath.utf8 t := rfl
      have hfirst := @UInt8.isUTF8FirstByte_getElem_zero_utf8EncodeChar c
      rcases hbytes : String.utf8EncodeChar c with _ | ⟨b, bs⟩
      · have hlength := congrArg List.length hbytes
        rw [String.length_utf8EncodeChar] at hlength
        have := c.utf8Size_pos
        rw [List.length_nil] at hlength
        omega
      · simp only [hbytes, List.getElem_cons_zero] at hfirst
        have hbyte := hall ⟨b.toNat, b.toNat_lt⟩
        simp only [UInt8.ofNat_toNat] at hbyte
        rw [hcons, hbytes]
        exact hbyte hfirst

/-! ## Slices -/

theorem parseFingerprintByte_eq_ok {i : Fin 32} {x : UInt8} :
    parseFingerprintByte index bytes i = .ok x ↔
      (isCharBoundary bytes (i * 2) ∧ isCharBoundary bytes (i * 2 + 2)) ∧
        fromStrRadix16 (bytes.getD (i * 2) 0) (bytes.getD (i * 2 + 1) 0) = some x := by
  unfold parseFingerprintByte
  rw [← Bool.and_eq_true]
  split_ifs with hends
  · split
    · rename_i byte hread
      rw [hread]
      constructor
      · rintro ⟨⟩
        exact ⟨hends, rfl⟩
      · rintro ⟨_, hx⟩
        rw [Option.some.inj hx]
    · rename_i hread
      rw [hread]
      exact ⟨nofun, nofun⟩
  · exact ⟨nofun, fun h => absurd h.1 hends⟩

theorem parseFingerprintByte_eq_panic {i : Fin 32} :
    parseFingerprintByte index bytes i = .error .panic ↔
      ¬ (isCharBoundary bytes (i * 2) ∧ isCharBoundary bytes (i * 2 + 2)) := by
  unfold parseFingerprintByte
  rw [← Bool.and_eq_true]
  split_ifs with hends
  · split
    · exact ⟨nofun, fun h => absurd hends h⟩
    · exact ⟨nofun, fun h => absurd hends h⟩
  · exact ⟨fun _ => hends, fun _ => rfl⟩

/-- Two bytes that are taken are a digit, and a digit or a plus sign in front of it. -/
theorem fromStrRadix16_eq_some {a b v : UInt8} :
    fromStrRadix16 a b = some v ↔
      (a = 43 ∧ hexDigit b = some v) ∨
      (a ≠ 43 ∧ ∃ high low, hexDigit a = some high ∧ hexDigit b = some low ∧
        v = 16 * high + low) := by
  unfold fromStrRadix16
  split_ifs with ha
  · simp [ha]
  · simp only [ha, false_and, false_or, not_false_eq_true, true_and, ne_eq]
    constructor
    · intro h
      obtain ⟨high, hhigh, h⟩ := Option.bind_eq_some_iff.mp h
      obtain ⟨low, hlow, h⟩ := Option.bind_eq_some_iff.mp h
      exact ⟨high, low, hhigh, hlow, (Option.some.inj h).symm⟩
    · rintro ⟨high, low, hhigh, hlow, rfl⟩
      rw [hhigh, hlow]
      rfl

theorem GroupRead.lt {i : Fin 32} (h : GroupRead bytes i) :
    (bytes.getD (i * 2) 0).toNat < 128 ∧ (bytes.getD (i * 2 + 1) 0).toNat < 128 := by
  obtain ⟨v, hv⟩ := Option.isSome_iff_exists.mp h
  rcases fromStrRadix16_eq_some.mp hv with ⟨ha, hb⟩ | ⟨_, high, low, ha, hb, _⟩
  · rw [ha]
    exact ⟨by decide, (lt_of_hexDigit hb).1⟩
  · exact ⟨(lt_of_hexDigit ha).1, (lt_of_hexDigit hb).1⟩

theorem GroupRead.isCharBoundary {i : Fin 32} (hlength : bytes.length = 64)
    (h : GroupRead bytes i) : isCharBoundary bytes (i * 2) :=
  isCharBoundary_of_lt (by omega) h.lt.1

/-- When every slice is taken none cuts a character. -/
theorem isCharBoundary_of_groups (hlength : bytes.length = 64) (h : ∀ i, GroupRead bytes i)
    (i : Fin 32) : isCharBoundary bytes (i * 2) ∧ isCharBoundary bytes (i * 2 + 2) := by
  refine ⟨(h i).isCharBoundary hlength, ?_⟩
  by_cases hi : i.val + 1 < 32
  · have hnext := (h ⟨i.val + 1, hi⟩).isCharBoundary hlength
    rwa [Nat.add_mul] at hnext
  · have hlast : i.val * 2 + 2 = bytes.length := by omega
    rw [hlast]
    exact isCharBoundary_length

/-! ## Panics -/

/-- No slice ends within a character while those in front of it are taken: nothing panics. -/
theorem parseFingerprint_ne_panic (h : Accurate raw) :
    parseFingerprint index raw ≠ .error .panic := by
  by_cases hlength : (hexBytes raw).length = 64
  · rw [parseFingerprint_eq hlength]
    intro hpanic
    obtain ⟨i, hi, hbefore⟩ := Vectors.mmap_eq_error.mp hpanic
    simp only [List.Vector.get_ofFn] at hi hbefore
    have hread : ∀ j < i, GroupRead (hexBytes raw) j := by
      intro j hj
      obtain ⟨x, hx⟩ := hbefore j hj
      exact Option.isSome_iff_exists.mpr ⟨x, (parseFingerprintByte_eq_ok.mp hx).2⟩
    refine parseFingerprintByte_eq_panic.mp hi ⟨?_, h.noCut hlength i hread⟩
    -- the slice starts where the one in front of it ended
    by_cases hzero : i.val = 0
    · rw [hzero, Nat.zero_mul]
      exact isCharBoundary_zero (hexChars raw)
    · obtain ⟨x, hx⟩ := hbefore ⟨i.val - 1, by omega⟩ (Fin.lt_def.mpr (by simp only; omega))
      have hend := (parseFingerprintByte_eq_ok.mp hx).1.2
      have hindex : (i.val - 1) * 2 + 2 = i.val * 2 := by omega
      rwa [hindex] at hend
  · obtain ⟨e, he⟩ := parseFingerprint_of_length index hlength
    rw [he]
    nofun

/-- The first slice that ends within a character panics, if those in front of it are taken. -/
theorem noCut_of_ne_panic (hlength : (hexBytes raw).length = 64)
    (h : parseFingerprint index raw ≠ .error .panic) (i : Fin 32)
    (hread : ∀ j < i, GroupRead (hexBytes raw) j) : isCharBoundary (hexBytes raw) (i * 2 + 2) := by
  induction i using WellFoundedLT.induction with
  | ind i ih =>
      by_contra hcut
      apply h
      rw [parseFingerprint_eq hlength]
      refine Vectors.mmap_eq_error.mpr ⟨i, ?_, fun j hj => ?_⟩
      · rw [List.Vector.get_ofFn, parseFingerprintByte_eq_panic]
        exact fun hends => hcut hends.2
      · obtain ⟨x, hx⟩ := Option.isSome_iff_exists.mp (hread j hj)
        refine ⟨x, ?_⟩
        rw [List.Vector.get_ofFn, parseFingerprintByte_eq_ok]
        exact ⟨⟨(hread j hj).isCharBoundary hlength,
          ih j hj fun k hk => hread k (lt_trans hk hj)⟩, hx⟩

/-! ## What is read -/

theorem toList_eq_hexChars (raw : String) :
    raw.toList = hexChars raw ∨ raw.toList = "sha256:".toList ++ hexChars raw := by
  unfold hexChars
  split_ifs with h
  · right
    exact List.prefix_iff_eq_append.mp (List.isPrefixOf_iff_prefix.mp h) |>.symm
  · exact Or.inl rfl

/-- The prefix is no digits. -/
theorem Denotes.hexChars {digits : List Char} (h : Denotes digits fp)
    (hraw : raw.toList = digits ∨ raw.toList = "sha256:".toList ++ digits) :
    hexChars raw = digits := by
  unfold Acl.hexChars
  rcases hraw with hraw | hraw
  · rw [hraw, if_neg]
    intro hprefix
    obtain ⟨rest, hrest⟩ := List.isPrefixOf_iff_prefix.mp hprefix
    obtain ⟨high, _, hhigh, _⟩ := h.value 0
    rw [← hrest] at hhigh
    have hs : hexValue 's' = none := by decide
    exact absurd (hs.symm.trans hhigh) (Option.some_ne_none high).symm
  · rw [hraw, if_pos (List.isPrefixOf_iff_prefix.mpr (List.prefix_append _ digits)),
      List.drop_left]

theorem Denotes.lt {digits : List Char} (h : Denotes digits fp) : ∀ c ∈ digits, c.toNat < 128 := by
  intro c hc
  obtain ⟨k, hk, rfl⟩ := List.getElem_of_mem hc
  have hlength := h.length
  obtain ⟨high, low, hhigh, hlow, _⟩ := h.value ⟨k / 2, by omega⟩
  rcases Nat.mod_two_eq_zero_or_one k with hmod | hmod
  · rw [show k / 2 * 2 = k by omega, List.getElem?_eq_getElem hk] at hhigh
    exact toNat_lt_of_hexValue hhigh
  · rw [show k / 2 * 2 + 1 = k by omega, List.getElem?_eq_getElem hk] at hlow
    exact toNat_lt_of_hexValue hlow

/-- The slices of a text of digits are its pairs. -/
theorem Denotes.hexDigit {digits : List Char} (h : Denotes digits fp) (i : Fin 32) :
    ∃ high low, hexDigit ((OsPath.utf8 digits).getD (i * 2) 0) = some high ∧
      hexDigit ((OsPath.utf8 digits).getD (i * 2 + 1) 0) = some low ∧
      fp.get i = 16 * high + low := by
  -- a digit and its byte have one value
  have hdigit : ∀ k x, (digits[k]?).bind hexValue = some x →
      ∃ v, Acl.hexDigit ((OsPath.utf8 digits).getD k 0) = some v ∧ v.toNat = x := by
    intro k x hx
    obtain ⟨c, hc, hx⟩ := Option.bind_eq_some_iff.mp hx
    have hbyte : (OsPath.utf8 digits).getD k 0 = UInt8.ofNat c.toNat := by
      rw [utf8_of_lt h.lt, List.getD_eq_getElem?_getD, List.getElem?_map, hc]
      rfl
    have hlt := h.lt c (List.mem_of_getElem? hc)
    have htoNat : (UInt8.ofNat c.toNat).toNat = c.toNat :=
      UInt8.toNat_ofNat_of_lt' (lt_trans hlt (by decide))
    have hvalue := hexValue_ofNat (UInt8.ofNat c.toNat)
    rw [htoNat, Char.ofNat_toNat, hx] at hvalue
    rw [hbyte]
    exact Option.map_eq_some_iff.mp hvalue.symm
  obtain ⟨x, y, hx, hy, hsum⟩ := h.value i
  obtain ⟨high, hhigh, rfl⟩ := hdigit _ _ hx
  obtain ⟨low, hlow, rfl⟩ := hdigit _ _ hy
  refine ⟨high, low, hhigh, hlow, UInt8.toNat_inj.mp ?_⟩
  rw [hsum, toNat_pair hhigh hlow]

/-- Slices of two digits are read as what the text says. -/
theorem denotes_of_digits (hlength : (hexBytes raw).length = 64)
    (h : ∀ i : Fin 32, ∃ high low, hexDigit ((hexBytes raw).getD (i * 2) 0) = some high ∧
      hexDigit ((hexBytes raw).getD (i * 2 + 1) 0) = some low ∧ fp.get i = 16 * high + low) :
    Denotes (hexChars raw) fp := by
  have hlow : ∀ b ∈ hexBytes raw, b.toNat < 128 := by
    intro b hb
    obtain ⟨k, hk, rfl⟩ := List.getElem_of_mem hb
    obtain ⟨high, low, hhigh, hlow, _⟩ := h ⟨k / 2, by omega⟩
    rcases Nat.mod_two_eq_zero_or_one k with hmod | hmod
    · rw [show k / 2 * 2 = k by omega, List.getD_eq_getElem _ _ hk] at hhigh
      exact (lt_of_hexDigit hhigh).1
    · rw [show k / 2 * 2 + 1 = k by omega, List.getD_eq_getElem _ _ hk] at hlow
      exact (lt_of_hexDigit hlow).1
  have hchars : hexChars raw = (hexBytes raw).map fun b => Char.ofNat b.toNat := eq_map_of_utf8 hlow
  have hdigit : ∀ k < 64, ∀ v, hexDigit ((hexBytes raw).getD k 0) = some v →
      ((hexChars raw)[k]?).bind hexValue = some v.toNat := by
    intro k hk v hv
    rw [List.getD_eq_getElem _ _ (by omega)] at hv
    rw [hchars, List.getElem?_map, List.getElem?_eq_getElem (by omega), Option.map_some,
      Option.bind_some, hexValue_ofNat, hv]
    rfl
  refine ⟨by rw [hchars, List.length_map, hlength], fun i => ?_⟩
  obtain ⟨high, low, hhigh, hlow, hsum⟩ := h i
  refine ⟨high.toNat, low.toNat, hdigit _ (by omega) _ hhigh, hdigit _ (by omega) _ hlow, ?_⟩
  rw [hsum, toNat_pair hhigh hlow]

theorem groupRead_of_digits {i : Fin 32} {high low v : UInt8}
    (hhigh : hexDigit (bytes.getD (i * 2) 0) = some high)
    (hlow : hexDigit (bytes.getD (i * 2 + 1) 0) = some low) (hv : v = 16 * high + low) :
    fromStrRadix16 (bytes.getD (i * 2) 0) (bytes.getD (i * 2 + 1) 0) = some v :=
  fromStrRadix16_eq_some.mpr (Or.inr ⟨hexDigit_ne_plus hhigh, high, low, hhigh, hlow, hv⟩)

/-- A fingerprint is read as its value. -/
theorem parseFingerprint_of_isFingerprint (h : IsFingerprint raw fp) :
    parseFingerprint index raw = .ok fp := by
  obtain ⟨digits, hdigits, hraw⟩ := h
  have hchars := hdigits.hexChars hraw
  have hbytes : hexBytes raw = OsPath.utf8 digits := by rw [hexBytes, hchars]
  have hread : ∀ i : Fin 32, fromStrRadix16 ((hexBytes raw).getD (i * 2) 0)
      ((hexBytes raw).getD (i * 2 + 1) 0) = some (fp.get i) := by
    intro i
    obtain ⟨high, low, hhigh, hlow, hsum⟩ := hdigits.hexDigit i
    rw [hbytes]
    exact groupRead_of_digits hhigh hlow hsum
  have hlength : (hexBytes raw).length = 64 := by
    rw [hbytes, utf8_of_lt hdigits.lt, List.length_map, hdigits.length]
  rw [parseFingerprint_eq hlength, Vectors.mmap_eq_ok]
  intro i
  rw [List.Vector.get_ofFn, parseFingerprintByte_eq_ok]
  exact ⟨isCharBoundary_of_groups hlength (fun i => Option.isSome_iff_exists.mpr ⟨_, hread i⟩) i,
    hread i⟩

/-- What is read is a fingerprint, unless a sign was taken for a digit. -/
theorem Accurate.isFingerprint (h : Accurate raw) (hparse : parseFingerprint index raw = .ok fp) :
    IsFingerprint raw fp := by
  by_cases hlength : (hexBytes raw).length = 64
  · rw [parseFingerprint_eq hlength, Vectors.mmap_eq_ok] at hparse
    have hread : ∀ i : Fin 32, fromStrRadix16 ((hexBytes raw).getD (i * 2) 0)
        ((hexBytes raw).getD (i * 2 + 1) 0) = some (fp.get i) := by
      intro i
      have hbyte := hparse i
      rw [List.Vector.get_ofFn] at hbyte
      exact (parseFingerprintByte_eq_ok.mp hbyte).2
    have hsign := h.noSign hlength fun i => Option.isSome_iff_exists.mpr ⟨_, hread i⟩
    refine ⟨hexChars raw, denotes_of_digits hlength fun i => ?_, toList_eq_hexChars raw⟩
    rcases fromStrRadix16_eq_some.mp (hread i) with ⟨hplus, _⟩ | ⟨_, hdigits⟩
    · exact absurd hplus (hsign i)
    · exact hdigits
  · obtain ⟨e, he⟩ := parseFingerprint_of_length index hlength
    rw [he] at hparse
    cases hparse

theorem Accurate.fingerprintLaw (h : Accurate raw) : FingerprintLaw index raw where
  accepts := fun _ => ⟨h.isFingerprint, parseFingerprint_of_isFingerprint⟩
  rejects := by
    intro hnone
    rcases hparse : parseFingerprint index raw with (e | _) | fp
    · exact ⟨e, rfl⟩
    · exact absurd hparse (parseFingerprint_ne_panic h)
    · exact absurd (h.isFingerprint hparse) (hnone fp)

theorem FingerprintLaw.ne_panic (h : FingerprintLaw index raw) :
    parseFingerprint index raw ≠ .error .panic := by
  intro hpanic
  obtain ⟨e, he⟩ := h.rejects fun fp hfp => by
    have := (h.accepts fp).mpr hfp
    rw [hpanic] at this
    cases this
  rw [hpanic] at he
  cases he

theorem FingerprintLaw.accurate (h : FingerprintLaw index raw) : Accurate raw where
  noSign := by
    intro hlength hread i hplus
    choose v hv using fun i => Option.isSome_iff_exists.mp (hread i)
    have hparse : parseFingerprint index raw = .ok (List.Vector.ofFn v) := by
      rw [parseFingerprint_eq hlength, Vectors.mmap_eq_ok]
      intro i
      rw [List.Vector.get_ofFn, List.Vector.get_ofFn, parseFingerprintByte_eq_ok]
      exact ⟨isCharBoundary_of_groups hlength hread i, hv i⟩
    obtain ⟨digits, hdigits, hraw⟩ := (h.accepts _).mp hparse
    obtain ⟨high, _, hhigh, _⟩ := hdigits.hexDigit i
    rw [← hdigits.hexChars hraw] at hhigh
    exact hexDigit_ne_plus hhigh hplus
  noCut := fun hlength => noCut_of_ne_panic hlength h.ne_panic

/-- Every text is read for what it is if and only if no plus sign is taken for a digit and no slice
cuts a character. -/
theorem fingerprintLaw_iff (index : ℕ) (raw : String) : FingerprintLaw index raw ↔ Accurate raw :=
  ⟨FingerprintLaw.accurate, Accurate.fingerprintLaw⟩

/-- A plus sign and 63 zeros are no fingerprint, and are read as one. -/
def signedText : String := "+000000000000000000000000000000000000000000000000000000000000000"

/-- A slice ends within the euro sign behind the first zero. -/
def cutText : String := "0€000000000000000000000000000000000000000000000000000000000000"

theorem not_fingerprintLaw :
    ¬ FingerprintLaw 0 signedText ∧ ¬ FingerprintLaw 0 cutText := by
  constructor
  · intro h
    exact h.accurate.noSign (by decide +kernel) (by decide +kernel) 0 (by decide +kernel)
  · intro h
    have hcut := h.accurate.noCut (by decide +kernel) 0 (fun j hj => absurd hj (Fin.not_lt_zero j))
    exact absurd hcut (by decide +kernel)

end DiskArcana.Acl
