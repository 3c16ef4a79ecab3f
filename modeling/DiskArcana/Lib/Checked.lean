import Mathlib.Data.Nat.Notation

/-!
# Checked arithmetic

Sums, products and differences of numbers below a limit, as a machine computes them when it stops at
an overflow: `none` is the overflow.
-/

namespace DiskArcana.Lib.Checked

variable {limit a b : ℕ}

def add (limit a b : ℕ) : Option ℕ := if a + b < limit then some (a + b) else none

def mul (limit a b : ℕ) : Option ℕ := if a * b < limit then some (a * b) else none

def sub (a b : ℕ) : Option ℕ := if b ≤ a then some (a - b) else none

theorem add_of_lt (h : a + b < limit) : add limit a b = some (a + b) := if_pos h

theorem mul_of_lt (h : a * b < limit) : mul limit a b = some (a * b) := if_pos h

theorem sub_of_le (h : b ≤ a) : sub a b = some (a - b) := if_pos h

end DiskArcana.Lib.Checked
