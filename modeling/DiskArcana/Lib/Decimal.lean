import Mathlib.Algebra.Order.Ring.Nat
import Mathlib.Data.List.Lex

/-!
# Decimal numbers of fixed width

Numbers written with a fixed count of digits, zeros in front (`fixed`). Their order as texts is that of
the numbers (`fixed_lt`), and a number after a number is a number (`fixed_append`).
-/

namespace DiskArcana.Lib.Decimal

/-- The last `width` decimal digits. -/
def fixed : ℕ → ℕ → List Char
  | 0, _ => []
  | width + 1, n => fixed width (n / 10) ++ [Nat.digitChar (n % 10)]

variable {width v m n : ℕ}

@[simp] theorem length_fixed (width n : ℕ) : (fixed width n).length = width := by
  induction width generalizing n with
  | zero => rfl
  | succ width ih => rw [fixed, List.length_append, ih, List.length_singleton]

theorem fixed_zero_right (width : ℕ) : fixed width 0 = List.replicate width '0' := by
  induction width with
  | zero => rfl
  | succ width ih =>
      rw [fixed, Nat.zero_div, ih, List.replicate_succ']
      rfl

/-- Two numbers after each other are one number. -/
theorem fixed_append (h : n < 10 ^ v) : fixed width m ++ fixed v n = fixed (width + v) (m * 10 ^ v + n) := by
  induction v generalizing n with
  | zero =>
      obtain rfl : n = 0 := by omega
      rw [fixed, List.append_nil, pow_zero, Nat.mul_one, Nat.add_zero, Nat.add_zero]
  | succ v ih =>
      have hpow : 10 ^ (v + 1) = 10 ^ v * 10 := pow_succ 10 _
      rw [fixed, ← List.append_assoc, ih (by omega), ← Nat.add_assoc, fixed, hpow, ← Nat.mul_assoc]
      rw [show (m * 10 ^ v * 10 + n) / 10 = m * 10 ^ v + n / 10 by omega,
        show (m * 10 ^ v * 10 + n) % 10 = n % 10 by omega]

/-- A longer number needs no zeros in front, a shorter one gets them. -/
theorem replicate_append_toDigits (hwidth : 0 < width) (h : n < 10 ^ width) :
    List.replicate (width - (Nat.toDigits 10 n).length) '0' ++ Nat.toDigits 10 n = fixed width n := by
  induction width generalizing n with
  | zero => omega
  | succ width ih =>
      by_cases hn : n < 10
      · rw [Nat.toDigits_of_lt_base hn, fixed, Nat.div_eq_of_lt hn, Nat.mod_eq_of_lt hn, fixed_zero_right]
        rfl
      · have hpow : 10 ^ (width + 1) = 10 ^ width * 10 := pow_succ 10 _
        have hpos : 0 < width := by
          rcases Nat.eq_zero_or_pos width with rfl | hpos
          · omega
          · exact hpos
        rw [Nat.toDigits_of_base_le (by omega) (by omega), List.length_append, List.length_singleton,
          Nat.add_sub_add_right, ← List.append_assoc, ih hpos (by omega), fixed]

theorem digitChar_lt (hm : m < 10) (hn : n < 10) (h : m < n) : Nat.digitChar m < Nat.digitChar n := by
  have hall : ∀ i j : Fin 10, i < j → Nat.digitChar i.val < Nat.digitChar j.val := by decide
  exact hall ⟨m, hm⟩ ⟨n, hn⟩ h

/-- Of texts of one length the first difference decides, whatever comes after them. -/
theorem append_lt_append {a b : List Char} (hlength : a.length = b.length) (h : a < b)
    (s t : List Char) : a ++ s < b ++ t := by
  induction a generalizing b with
  | nil =>
      obtain rfl := List.length_eq_zero_iff.mp hlength.symm
      cases h
  | cons c a ih =>
      cases h with
      | rel hlt => exact List.Lex.rel hlt
      | cons hlt => exact List.Lex.cons (ih (Nat.succ.inj hlength) hlt)

/-- Texts of one width are in the order of the numbers. -/
theorem fixed_lt (h : m < n) (hn : n < 10 ^ width) : fixed width m < fixed width n := by
  induction width generalizing m n with
  | zero => omega
  | succ width ih =>
      have hpow : 10 ^ (width + 1) = 10 ^ width * 10 := pow_succ 10 _
      rw [fixed, fixed]
      by_cases hdiv : m / 10 = n / 10
      · rw [hdiv]
        apply List.append_left_lt
        exact List.Lex.rel (digitChar_lt (by omega) (by omega) (by omega))
      · exact append_lt_append (by rw [length_fixed, length_fixed]) (ih (by omega) (by omega)) _ _

end DiskArcana.Lib.Decimal
