import Mathlib.Algebra.Ring.Nat
import Mathlib.Tactic.Common
import Mathlib.Tactic.Lemma

/-!
# Checked arithmetic of machine words

Unsigned operations of a fixed width as they are on paper: an operation has a result only when no
bit of the exact one is lost.  A computation in this arithmetic that has a result has it on the
machine too, and no operation on the way has wrapped.
-/

namespace Checked

/-- `n` as a word of `bits` bits. -/
def fits (bits n : ℕ) : Option ℕ := if n < 2 ^ bits then some n else none

def add (bits a b : ℕ) : Option ℕ := fits bits (a + b)

def mul (bits a b : ℕ) : Option ℕ := fits bits (a * b)

/-- Subtraction, which must not go below zero. -/
def sub (a b : ℕ) : Option ℕ := if b ≤ a then some (a - b) else none

lemma fits_eq {bits n : ℕ} (h : n < 2 ^ bits) : fits bits n = some n := if_pos h

lemma add_eq {bits a b : ℕ} (h : a + b < 2 ^ bits) : add bits a b = some (a + b) := fits_eq h

lemma mul_eq {bits a b : ℕ} (h : a * b < 2 ^ bits) : mul bits a b = some (a * b) := fits_eq h

lemma sub_eq {a b : ℕ} (h : b ≤ a) : sub a b = some (a - b) := if_pos h

end Checked
