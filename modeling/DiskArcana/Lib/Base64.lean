import Mathlib.Data.List.Basic

/-!
# Base64 without padding, URL-safe alphabet

`encode` writes three bytes as four characters of six bits, and one or two bytes at the end as two
or three characters whose spare low bits are zero. `decode` reads only that: other characters, a
single character at the end and spare bits that are not zero are refused. `decode_encode` is the round
trip.
-/

namespace DiskArcana.Lib.Base64

/-- The alphabet, in order of the values. -/
def alphabet : List Char :=
  "ABCDEFGHIJKLMNOPQRSTUVWXYZabcdefghijklmnopqrstuvwxyz0123456789-_".toList

/-- The character of a value below 64. -/
def charOf (n : ℕ) : Char := alphabet.getD n 'A'

/-- The value of a character of the alphabet. -/
def valueOf (c : Char) : Option ℕ := alphabet.findIdx? (· == c)

theorem valueOf_charOf {n : ℕ} (h : n < 64) : valueOf (charOf n) = some n := by
  have hall : ∀ m < 64, valueOf (charOf m) = some m := by decide +kernel
  exact hall n h

/-- The characters of a list of bytes. -/
def encode : List UInt8 → List Char
  | [] => []
  | [a] => [charOf (a.toNat / 4), charOf (a.toNat % 4 * 16)]
  | [a, b] =>
    [charOf (a.toNat / 4), charOf (a.toNat % 4 * 16 + b.toNat / 16), charOf (b.toNat % 16 * 4)]
  | a :: b :: c :: rest =>
    charOf (a.toNat / 4) :: charOf (a.toNat % 4 * 16 + b.toNat / 16) ::
      charOf (b.toNat % 16 * 4 + c.toNat / 64) :: charOf (c.toNat % 64) :: encode rest

/-- The bytes of a list of six-bit values. -/
def decodeValues : List ℕ → Option (List UInt8)
  | [] => some []
  | [_] => none
  | [p, q] => if q % 16 = 0 then some [UInt8.ofNat (p * 4 + q / 16)] else none
  | [p, q, r] =>
    if r % 4 = 0 then
      some [UInt8.ofNat (p * 4 + q / 16), UInt8.ofNat (q % 16 * 16 + r / 4)]
    else none
  | p :: q :: r :: s :: rest =>
    (decodeValues rest).map fun bytes =>
      UInt8.ofNat (p * 4 + q / 16) :: UInt8.ofNat (q % 16 * 16 + r / 4) ::
        UInt8.ofNat (r % 4 * 64 + s) :: bytes

/-- The bytes that a text encodes. -/
def decode (cs : List Char) : Option (List UInt8) := (cs.mapM valueOf).bind decodeValues

/-- A character outside the alphabet is refused. -/
theorem decode_eq_none {cs : List Char} {c : Char} (hmem : c ∈ cs) (hc : valueOf c = none) :
    decode cs = none := by
  unfold decode
  have hnone : cs.mapM valueOf = none := by
    induction cs with
    | nil => cases hmem
    | cons x xs ih =>
        rw [List.mapM_cons]
        rcases List.mem_cons.mp hmem with rfl | hmem
        · rw [hc]
          rfl
        · rw [ih hmem]
          rcases valueOf x with _ | v <;> rfl
  rw [hnone]
  rfl

/-- **Round trip.** -/
theorem decode_encode (bytes : List UInt8) : decode (encode bytes) = some bytes := by
  have hof : ∀ {b : UInt8} {n : ℕ}, n = b.toNat → UInt8.ofNat n = b := by
    rintro b n rfl
    exact UInt8.ofNat_toNat
  unfold decode
  induction bytes using encode.induct with
  | case1 => rfl
  | case2 a =>
      have ha := a.toNat_lt
      simp only [encode, List.mapM_cons, List.mapM_nil, valueOf_charOf (by omega : a.toNat / 4 < 64),
        valueOf_charOf (by omega : a.toNat % 4 * 16 < 64)]
      show decodeValues [_, _] = _
      rw [decodeValues, if_pos (by omega), hof (b := a) (by omega)]
  | case3 a b =>
      have ha := a.toNat_lt
      have hb := b.toNat_lt
      simp only [encode, List.mapM_cons, List.mapM_nil, valueOf_charOf (by omega : a.toNat / 4 < 64),
        valueOf_charOf (by omega : a.toNat % 4 * 16 + b.toNat / 16 < 64),
        valueOf_charOf (by omega : b.toNat % 16 * 4 < 64)]
      show decodeValues [_, _, _] = _
      rw [decodeValues, if_pos (by omega), hof (b := a) (by omega), hof (b := b) (by omega)]
  | case4 a b c rest ih =>
      have ha := a.toNat_lt
      have hb := b.toNat_lt
      have hc := c.toNat_lt
      obtain ⟨values, hvalues, hrest⟩ := Option.bind_eq_some_iff.mp ih
      simp only [encode, List.mapM_cons, hvalues,
        valueOf_charOf (by omega : a.toNat / 4 < 64),
        valueOf_charOf (by omega : a.toNat % 4 * 16 + b.toNat / 16 < 64),
        valueOf_charOf (by omega : b.toNat % 16 * 4 + c.toNat / 64 < 64),
        valueOf_charOf (by omega : c.toNat % 64 < 64)]
      show decodeValues (_ :: _ :: _ :: _ :: values) = _
      rw [decodeValues, hrest, hof (b := a) (by omega), hof (b := b) (by omega),
        hof (b := c) (by omega)]
      rfl

/-- Only characters of the alphabet are written. -/
theorem isSome_valueOf_of_mem {c : Char} {bytes : List UInt8} (h : c ∈ encode bytes) :
    (valueOf c).isSome = true := by
  by_contra hnone
  rw [Option.not_isSome_iff_eq_none] at hnone
  have hfail := decode_eq_none h hnone
  rw [decode_encode] at hfail
  cases hfail

theorem notMem_encode {c : Char} (hc : valueOf c = none) (bytes : List UInt8) :
    c ∉ encode bytes := by
  intro h
  have hsome := isSome_valueOf_of_mem h
  rw [hc] at hsome
  cases hsome

/-- The first character is that of the first six bits. -/
theorem head?_encode_cons (a : UInt8) (bytes : List UInt8) :
    (encode (a :: bytes)).head? = some (charOf (a.toNat / 4)) := by
  rcases bytes with _ | ⟨b, _ | ⟨c, rest⟩⟩ <;> rfl

end DiskArcana.Lib.Base64
