import Mathlib

/-!
# Token buckets

A bucket holds at most `cap` tokens and gains `rate` of them with every tick of a clock that never
goes back.  Each admission takes one token and is stamped with the time.  Then an interval of `d`
ticks holds at most `cap + rate * d` admissions.

The argument is that of a potential: the admissions since a time `t` and the tokens left never
exceed `cap + rate * (now - t)`.  `Metered` states this together with the bound, and is kept when
time advances and when a token is taken.
-/

namespace LlmdAsync

variable {K : Type*} [Field K] [LinearOrder K] [IsStrictOrderedRing K]

/-- The number of admissions in an interval, both ends included. -/
def admissionsIn (stamps : List ℤ) (t₁ t₂ : ℤ) : ℕ :=
  stamps.countP fun s => decide (t₁ ≤ s) && decide (s ≤ t₂)

/-- The tokens in a bucket that held `tokens` at the time `last`. -/
def bucketLevel (cap rate tokens : K) (last now : ℤ) : K :=
  min cap (tokens + rate * ((now - last : ℤ) : K))

/-- At the time `now` the bucket holds `level` tokens, and the admissions so far are as many as its
capacity and its rate allow. -/
structure Metered (cap rate : K) (now : ℤ) (level : K) (stamps : List ℤ) : Prop where
  /-- The bucket does not overflow. -/
  level_le : level ≤ cap
  /-- The bucket is not overdrawn. -/
  level_nonneg : 0 ≤ level
  /-- Stamps are past times. -/
  stamped : ∀ s ∈ stamps, s ≤ now
  /-- What has been admitted since a time, and what is left. -/
  potential : ∀ t ≤ now, (stamps.countP (decide <| t ≤ ·) : K) + level ≤
    cap + rate * ((now - t : ℤ) : K)
  /-- The bound for every interval. -/
  interval : ∀ t₁ t₂, t₁ ≤ t₂ →
    (admissionsIn stamps t₁ t₂ : K) ≤ cap + rate * ((t₂ - t₁ : ℤ) : K)

namespace Metered

variable {cap rate level level' : K} {now now' : ℤ} {stamps : List ℤ}

lemma gain_nonneg (hrate : 0 ≤ rate) {t t' : ℤ} (h : t ≤ t') : 0 ≤ rate * ((t' - t : ℤ) : K) :=
  mul_nonneg hrate (Int.cast_nonneg (by omega))

lemma full (hcap : 0 ≤ cap) (hrate : 0 ≤ rate) (now : ℤ) : Metered cap rate now cap [] where
  level_le := le_refl cap
  level_nonneg := hcap
  stamped _ hs := absurd hs List.not_mem_nil
  potential t ht := by
    have := gain_nonneg hrate ht
    rw [List.countP_nil, Nat.cast_zero]
    linarith
  interval t₁ t₂ h := by
    have := gain_nonneg hrate h
    rw [admissionsIn, List.countP_nil, Nat.cast_zero]
    linarith

lemma advance (h : Metered cap rate now level stamps) (hrate : 0 ≤ rate) (hnow : now ≤ now')
    (hnonneg : 0 ≤ level') (hcap : level' ≤ cap)
    (hgain : level' ≤ level + rate * ((now' - now : ℤ) : K)) :
    Metered cap rate now' level' stamps where
  level_le := hcap
  level_nonneg := hnonneg
  stamped s hs := (h.stamped s hs).trans hnow
  potential t ht := by
    by_cases hpast : t ≤ now
    · have hold := h.potential t hpast
      have hsplit : ((now' - t : ℤ) : K) = ((now' - now : ℤ) : K) + ((now - t : ℤ) : K) := by
        rw [← Int.cast_add]
        congr 1
        omega
      rw [hsplit, mul_add]
      linarith
    · -- Nothing has been admitted since a time that was still to come.
      have hnone : stamps.countP (decide <| t ≤ ·) = 0 := by
        rw [List.countP_eq_zero]
        intro s hs
        have := h.stamped s hs
        rw [decide_eq_true_eq]
        omega
      have := gain_nonneg hrate ht
      rw [hnone, Nat.cast_zero]
      linarith
  interval := h.interval

lemma take (h : Metered cap rate now level stamps) (hrate : 0 ≤ rate) (hlevel : 1 ≤ level) :
    Metered cap rate now (level - 1) (stamps ++ [now]) where
  level_le := (sub_le_self level zero_le_one).trans h.level_le
  level_nonneg := sub_nonneg.mpr hlevel
  stamped s hs := by
    rcases List.mem_append.mp hs with hold | hnew
    · exact h.stamped s hold
    · exact le_of_eq (List.mem_singleton.mp hnew)
  potential t ht := by
    have hold := h.potential t ht
    rw [List.countP_append, List.countP_singleton, if_pos (decide_eq_true ht), Nat.cast_add,
      Nat.cast_one]
    linarith
  interval t₁ t₂ hle := by
    rw [admissionsIn, List.countP_append, List.countP_singleton]
    by_cases hin : t₁ ≤ now ∧ now ≤ t₂
    · -- All stamps from `t₁` on count, and the potential at `t₁` pays for one more.
      have hall : (stamps.countP fun s => decide (t₁ ≤ s) && decide (s ≤ t₂)) =
          stamps.countP (decide <| t₁ ≤ ·) := by
        refine List.countP_congr fun s hs => ?_
        have := h.stamped s hs
        simp only [Bool.and_eq_true, decide_eq_true_eq]
        omega
      have hpay := h.potential t₁ hin.1
      have hmore : rate * ((now - t₁ : ℤ) : K) ≤ rate * ((t₂ - t₁ : ℤ) : K) :=
        mul_le_mul_of_nonneg_left (Int.cast_le.mpr (by omega)) hrate
      rw [if_pos (by simp [hin]), hall, Nat.cast_add, Nat.cast_one]
      linarith
    · rw [if_neg (by simpa using hin), Nat.add_zero]
      exact h.interval t₁ t₂ hle

end Metered

section Level

variable {cap rate tokens : K} {last now now' : ℤ}

omit [IsStrictOrderedRing K] in
lemma bucketLevel_le : bucketLevel cap rate tokens last now ≤ cap := min_le_left _ _

lemma bucketLevel_nonneg (hcap : 0 ≤ cap) (hrate : 0 ≤ rate) (htokens : 0 ≤ tokens)
    (hlast : last ≤ now) : 0 ≤ bucketLevel cap rate tokens last now :=
  le_min hcap (add_nonneg htokens (Metered.gain_nonneg hrate hlast))

omit [IsStrictOrderedRing K] in
lemma bucketLevel_self (h : tokens ≤ cap) : bucketLevel cap rate tokens now now = tokens := by
  rw [bucketLevel, sub_self, Int.cast_zero, mul_zero, add_zero, min_eq_right h]

lemma bucketLevel_advance (hrate : 0 ≤ rate) (hnow : now ≤ now') :
    bucketLevel cap rate tokens last now' ≤
      bucketLevel cap rate tokens last now + rate * ((now' - now : ℤ) : K) := by
  have hgain := Metered.gain_nonneg hrate hnow
  have hsplit : ((now' - last : ℤ) : K) = ((now - last : ℤ) : K) + ((now' - now : ℤ) : K) := by
    rw [← Int.cast_add]
    congr 1
    omega
  rw [bucketLevel, bucketLevel, min_add, hsplit, mul_add, ← add_assoc]
  exact min_le_min (le_add_of_nonneg_right hgain) (le_refl _)

end Level

end LlmdAsync
