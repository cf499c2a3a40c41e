import LlmdAsync.Foundation.WordPoly
import LlmdAsync.Redis.KeySlot

/-!
# The checksum of a key

`crc16` of `pkg/redis/keyslot.go` as division with remainder.  The running checksum is congruent
to the bytes read so far, as a polynomial over the field of two elements, times `X ^ 16`; it has
degree below 16, so it is the remainder.
-/

namespace LlmdAsync.Redis

open Polynomial AdjoinRoot

/-- The polynomial `0x1021` stands for, with its leading term. -/
noncomputable def crcGenerator : (ZMod 2)[X] := X ^ 16 + X ^ 12 + X ^ 5 + 1

/-- The polynomial of a byte string with one more byte behind it. -/
noncomputable def appendByte (p : (ZMod 2)[X]) (b : UInt8) : (ZMod 2)[X] :=
  p * X ^ 8 + wordPoly b.toBitVec

/-- A byte string as a polynomial: the high bit of the first byte is the leading coefficient. -/
noncomputable def messagePoly (data : List UInt8) : (ZMod 2)[X] := data.foldl appendByte 0

lemma degree_crcGenerator : crcGenerator.degree = 16 := by
  rw [crcGenerator]
  compute_degree!

lemma monic_crcGenerator : crcGenerator.Monic := by
  rw [crcGenerator]
  monicity!

lemma wordPoly_generator : wordPoly 0x1021#16 = X ^ 12 + X ^ 5 + 1 := by
  simp [wordPoly, Finset.sum_range_succ]
  ring

/-- One shift multiplies by `X` modulo the generator: the bit that is shifted out is `X ^ 16`, and
it is cleared by adding the generator. -/
lemma mk_crc16Shift (crc : UInt16) :
    mk crcGenerator (wordPoly (crc16Shift crc).toBitVec) =
      mk crcGenerator (wordPoly crc.toBitVec * X) := by
  have hbit : crc &&& 0x8000 ≠ 0 ↔ crc.toBitVec.getLsbD 15 := by
    rw [← UInt16.toBitVec_inj.ne, UInt16.toBitVec_and]
    change crc.toBitVec &&& BitVec.twoPow 16 15 ≠ 0 ↔ _
    rw [BitVec.and_twoPow]
    cases crc.toBitVec.getLsbD 15 <;> decide
  have hshift : (crc <<< 1).toBitVec = crc.toBitVec <<< 1 := rfl
  have hcleared : mk crcGenerator (X ^ 16) = mk crcGenerator (X ^ 12 + X ^ 5 + 1) := by
    rw [mk_eq_mk, CharTwo.sub_eq_add, crcGenerator, ← add_assoc, ← add_assoc]
  rw [mul_comm, X_mul_wordPoly, map_add, crc16Shift]
  simp only [hbit]
  cases hhigh : crc.toBitVec.getLsbD 15 with
  | false => simp [hshift]
  | true =>
    simp [hshift, wordPoly_xor, hcleared, wordPoly_generator]

lemma mk_crc16Shift_iterate (crc : UInt16) (n : ℕ) :
    mk crcGenerator (wordPoly (crc16Shift^[n] crc).toBitVec) =
      mk crcGenerator (wordPoly crc.toBitVec * X ^ n) := by
  induction n with
  | zero => rw [Function.iterate_zero_apply, pow_zero, mul_one]
  | succ n ih =>
    rw [Function.iterate_succ_apply', mk_crc16Shift, map_mul, ih, ← map_mul, mul_assoc, pow_succ]

lemma mk_crc16Byte (crc : UInt16) (b : UInt8) :
    mk crcGenerator (wordPoly (crc16Byte crc b).toBitVec) =
      mk crcGenerator (wordPoly crc.toBitVec * X ^ 8 + wordPoly b.toBitVec * X ^ 16) := by
  have hbyte : wordPoly (b.toUInt16 <<< 8).toBitVec = wordPoly b.toBitVec * X ^ 8 :=
    wordPoly_setWidth_shiftLeft b.toBitVec (by decide)
  rw [crc16Byte, mk_crc16Shift_iterate, UInt16.toBitVec_xor, wordPoly_xor, hbyte, add_mul,
    mul_assoc, ← pow_add]

/-- The invariant of the outer loop. -/
lemma mk_crc16 (data : List UInt8) :
    mk crcGenerator (wordPoly (crc16 data).toBitVec) =
      mk crcGenerator (messagePoly data * X ^ 16) := by
  induction data using List.reverseRecOn with
  | nil => simp [crc16, messagePoly, wordPoly]
  | append_singleton data b ih =>
    rw [crc16] at ih
    rw [crc16, messagePoly, List.foldl_concat, List.foldl_concat, mk_crc16Byte, map_add, map_mul,
      ih, ← messagePoly, ← map_mul, ← map_add, appendByte]
    congr 1
    ring

lemma messagePoly_mod (data : List UInt8) :
    messagePoly data * X ^ 16 %ₘ crcGenerator = wordPoly (crc16 data).toBitVec := by
  rw [modByMonic_eq_of_dvd_sub monic_crcGenerator (mk_eq_mk.mp (mk_crc16 data).symm),
    modByMonic_eq_self_iff monic_crcGenerator, degree_crcGenerator]
  exact degree_wordPoly_lt _

lemma messagePoly_xor {a b : List UInt8} (h : a.length = b.length) :
    messagePoly (a.zipWith (· ^^^ ·) b) = messagePoly a + messagePoly b := by
  -- with the two running polynomials apart
  suffices hfold : ∀ p q, (a.zipWith (· ^^^ ·) b).foldl appendByte (p + q) =
      a.foldl appendByte p + b.foldl appendByte q by
    simpa [messagePoly] using hfold 0 0
  induction a generalizing b with
  | nil =>
    rw [List.length_eq_zero_iff.mp h.symm]
    exact fun _ _ => rfl
  | cons x a ih =>
    obtain ⟨y, b, rfl⟩ := List.exists_cons_of_length_eq_add_one h.symm
    intro p q
    have hstep : appendByte (p + q) (x ^^^ y) = appendByte p x + appendByte q y := by
      simp only [appendByte, UInt8.toBitVec_xor, wordPoly_xor]
      ring
    rw [List.zipWith_cons_cons, List.foldl_cons, hstep, ih (Nat.succ.inj h)]
    rfl

/-- `crc16` is the remainder of the message times `X ^ 16` by the generator, bit by bit.  What
follows a part of a message sees it only through its checksum, and the checksum of an exclusive or
is the exclusive or of the checksums. -/
theorem crc16_remainder :
    (∀ data i, (messagePoly data * X ^ 16 %ₘ (X ^ 16 + X ^ 12 + X ^ 5 + 1)).coeff i =
      if (crc16 data).toBitVec.getLsbD i then 1 else 0) ∧
    (∀ a a' b, crc16 a = crc16 a' → crc16 (a ++ b) = crc16 (a' ++ b)) ∧
    ∀ a b : List UInt8, a.length = b.length →
      crc16 (a.zipWith (· ^^^ ·) b) = crc16 a ^^^ crc16 b := by
  refine ⟨fun data i => ?_, fun a a' b h => ?_, fun a b h => ?_⟩
  · rw [← crcGenerator, messagePoly_mod, coeff_wordPoly]
  · simp only [crc16] at h ⊢
    rw [List.foldl_append, h, List.foldl_append]
  · refine UInt16.toBitVec_inj.mp (wordPoly_injective ?_)
    rw [← messagePoly_mod, messagePoly_xor h, add_mul, add_modByMonic, messagePoly_mod,
      messagePoly_mod, UInt16.toBitVec_xor, wordPoly_xor]

end LlmdAsync.Redis
