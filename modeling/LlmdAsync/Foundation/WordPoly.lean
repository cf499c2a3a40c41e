import Mathlib

/-!
# Words as polynomials over the field of two elements

A word of `w` bits is the polynomial of degree below `w` whose coefficients are its bits.
Exclusive or is addition, and a shift to the left is multiplication by `X` up to the bit that is
shifted out.
-/

namespace LlmdAsync

open Polynomial BitVec

variable {w : ℕ}

/-- The polynomial with bit `i` of the word as coefficient of `X ^ i`. -/
noncomputable def wordPoly (x : BitVec w) : (ZMod 2)[X] :=
  ∑ i ∈ Finset.range w, if x.getLsbD i then X ^ i else 0

@[simp] lemma coeff_wordPoly (x : BitVec w) (i : ℕ) :
    (wordPoly x).coeff i = if x.getLsbD i then 1 else 0 := by
  have hcoeff (j : ℕ) : (if x.getLsbD j then (X : (ZMod 2)[X]) ^ j else 0).coeff i =
      if i = j then if x.getLsbD i then 1 else 0 else 0 := by
    cases hj : x.getLsbD j <;> by_cases hij : i = j <;> simp [coeff_X_pow, hij, hj]
  rw [wordPoly, finsetSum_coeff, Finset.sum_congr rfl fun j _ => hcoeff j, Finset.sum_ite_eq]
  split
  next => rfl
  next hi => rw [getLsbD_of_ge x i (by simpa using hi)]; rfl

lemma wordPoly_injective : Function.Injective (wordPoly (w := w)) := by
  intro x y h
  refine eq_of_getLsbD_eq fun i _ => ?_
  have hcoeff := congrArg (coeff · i) h
  simp only [coeff_wordPoly] at hcoeff
  cases hx : x.getLsbD i <;> cases hy : y.getLsbD i <;> simp_all

lemma wordPoly_xor (x y : BitVec w) : wordPoly (x ^^^ y) = wordPoly x + wordPoly y := by
  ext i
  cases hx : x.getLsbD i <;> cases hy : y.getLsbD i <;> simp [hx, hy]
  exact (CharTwo.add_self_eq_zero 1).symm

lemma degree_wordPoly_lt (x : BitVec w) : (wordPoly x).degree < w := by
  refine (degree_lt_iff_coeff_zero _ _).mpr fun i hi => ?_
  simp [getLsbD_of_ge x i hi]

/-- Multiplication by `X` shifts to the left; the high bit becomes the new leading coefficient. -/
lemma X_mul_wordPoly (x : BitVec (w + 1)) :
    X * wordPoly x = wordPoly (x <<< 1) + if x.getLsbD w then X ^ (w + 1) else 0 := by
  ext i
  cases i with
  | zero => cases x.getLsbD w <;> simp
  | succ i =>
    rw [coeff_X_mul, coeff_add, coeff_wordPoly, coeff_wordPoly, getLsbD_shiftLeft]
    rcases Nat.lt_trichotomy i w with hi | rfl | hi
    · cases x.getLsbD w <;> simp [coeff_X_pow, hi, hi.ne, hi.le]
    · cases x.getLsbD i <;> simp
    · rw [getLsbD_of_ge x i hi]
      cases x.getLsbD w <;> simp [coeff_X_pow, hi.ne', hi.not_gt]

/-- A shift that loses no bit is multiplication by a power of `X`. -/
lemma wordPoly_setWidth_shiftLeft {n s : ℕ} (x : BitVec w) (h : w + s ≤ n) :
    wordPoly (x.setWidth n <<< s) = wordPoly x * X ^ s := by
  ext i
  rw [coeff_mul_X_pow', coeff_wordPoly, coeff_wordPoly, getLsbD_shiftLeft, getLsbD_setWidth]
  by_cases hi : s ≤ i
  · cases hx : x.getLsbD (i - s)
    · simp
    · have hw : i - s < w := lt_of_getLsbD hx
      have hn : i < n := by omega
      simp [hi, hn, show i - s < n by omega]
  · simp [hi]

end LlmdAsync
