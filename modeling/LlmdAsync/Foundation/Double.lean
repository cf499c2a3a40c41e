import Mathlib

/-!
# Integers as doubles

A double has 53 significant bits.  An integer with more bits becomes the nearest integer that has
only zeros after the first 53 of them, and of two that are equally near the one whose last
significant bit is zero.  `roundDouble` is that rounding; it can make different integers equal.
-/

namespace LlmdAsync

/-- The multiple of `d` nearest to `n`, divided by `d`; of two, the even one. -/
def divRoundEven (n d : ℕ) : ℕ :=
  if 2 * (n % d) < d ∨ 2 * (n % d) = d ∧ n / d % 2 = 0 then n / d else n / d + 1

/-- How many bits of `n` a double cannot hold. -/
def excessBits (n : ℕ) : ℕ := n.log2 - 52

/-- A natural number, rounded to a double. -/
def roundDoubleNat (n : ℕ) : ℕ := divRoundEven n (2 ^ excessBits n) * 2 ^ excessBits n

/-- An integer, rounded to a double. -/
def roundDouble : ℤ → ℤ
  | .ofNat n => roundDoubleNat n
  | .negSucc n => -roundDoubleNat (n + 1)

end LlmdAsync
