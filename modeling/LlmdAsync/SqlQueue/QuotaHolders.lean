import LlmdAsync.SqlQueue.QuotaSlots

/-!
# The slots of one holder

What a statement can do to the slots that one holder has of one key.  As long as the lease of the
holder is live, only `ReleaseQuotaSlots` for the holder lowers their number, and by no more than it
is told to.
-/

namespace LlmdAsync.SqlQueue

open List Option Hash QuotaDb

/-- The holder that a statement is run for. -/
def QuotaStep.holder : QuotaStep → Option String
  | .register holder _ => some holder
  | .renew holder _ => some holder
  | .acquire holder .. => some holder
  | .release holder _ => some holder
  | .delete holder => some holder
  | _ => none

/-- The counts for a key together. -/
def countAt (counts : List (String × ℕ)) (key : String) : ℕ :=
  (counts.map fun c => if c.1 = key then c.2 else 0).sum

lemma lookup_le_countAt (counts : List (String × ℕ)) (key : String) :
    (counts.lookup key).getD 0 ≤ countAt counts key := by
  induction counts with
  | nil => exact le_refl 0
  | cons c counts ih =>
    unfold countAt at ih ⊢
    rw [lookup_cons, map_cons, sum_cons]
    by_cases hc : c.1 = key
    · simp [hc]
    · simpa [hc, beq_eq_false_iff_ne.mpr (Ne.symm hc)] using ih

/-- What a statement releases of the slots of a key and a holder. -/
def QuotaStep.releases (key holder : String) : QuotaStep → ℕ
  | .release holder' counts => if holder' = holder then countAt counts key else 0
  | _ => 0

namespace QuotaDb

variable {db : QuotaDb} {now : ℤ} {key holder : String}

/-- The slots of a key that a holder has. -/
def usedBy (db : QuotaDb) (key holder : String) : ℤ := (Hash.hget db.slots (key, holder)).getD 0

lemma usedBy_congr {db' : QuotaDb} (h : db'.slots = db.slots) (key holder : String) :
    db'.usedBy key holder = db.usedBy key holder := by
  rw [usedBy, h, usedBy]

lemma SlotsSound.usedBy_nonneg (h : db.SlotsSound) (key holder : String) :
    0 ≤ db.usedBy key holder := by
  unfold usedBy
  cases hget : hget db.slots (key, holder) with
  | none => exact le_refl 0
  | some used => exact h.nonneg _ (mem_slots hget)

lemma usedBy_quotaAcquire (db : QuotaDb) (now : ℤ) (key₀ holder₀ : String) (n : ℕ) (limit : ℤ)
    (key holder : String) :
    (db.quotaAcquire now key₀ holder₀ n limit).2.usedBy key holder = db.usedBy key holder +
      if holder₀ = holder ∧ key₀ = key then
        max ((db.quotaAcquire now key₀ holder₀ n limit).1.getD 0) 0 else 0 := by
  have hlock : (db.lockKey key₀).usedBy key holder = db.usedBy key holder := usedBy_congr rfl _ _
  unfold quotaAcquire
  dsimp only
  split
  · generalize grant n limit ((db.lockKey key₀).liveUsed now key₀) = granted
    split
    next hpos =>
      simp only [addSlots, usedBy, hget_hset, Prod.mk.injEq]
      by_cases hk : holder₀ = holder ∧ key₀ = key
      · obtain ⟨rfl, rfl⟩ := hk
        simp only [and_self, if_true, getD_some]
        have : (db.lockKey key₀).slots = db.slots := rfl
        rw [this]
        omega
      · rw [if_neg (fun h => hk ⟨h.2.symm, h.1.symm⟩), if_neg hk, add_zero]
        rfl
    next hpos =>
      simp only [getD_some]
      rw [hlock, max_eq_right (not_lt.mp hpos), ite_self, add_zero]
  · rw [hlock]
    simp

lemma quotaAcquire_bounds {n : ℕ} {limit granted : ℤ}
    (h : (db.quotaAcquire now key holder n limit).1 = some granted) :
    0 ≤ granted ∧ granted ≤ n := by
  unfold quotaAcquire at h
  dsimp only at h
  split at h
  · obtain rfl := some.inj h
    unfold grant
    omega
  · cases h

lemma usedBy_releaseQuotaSlots (h : db.SlotsSound) (holder₀ : String)
    (counts : List (String × ℕ)) (key holder : String) :
    db.usedBy key holder ≤ (db.releaseQuotaSlots holder₀ counts).usedBy key holder +
      (QuotaStep.release holder₀ counts).releases key holder := by
  have hnonneg := h.usedBy_nonneg key holder
  have hle := lookup_le_countAt counts key
  have hmap : hget (db.releaseQuotaSlots holder₀ counts).slots (key, holder) =
      (hget db.slots (key, holder)).map fun used =>
        (releaseRow holder₀ counts ((key, holder), used)).2 := by
    rw [Hash.hget, releaseQuotaSlots, Table.get?_map, Hash.hget, Option.map_map, Option.map_map]
    cases hget : db.slots.get? (key, holder) with
    | none => rfl
    | some r =>
      obtain ⟨k, used⟩ := r
      obtain rfl : k = (key, holder) := Table.key_of_get? hget
      rfl
  unfold usedBy at hnonneg ⊢
  rw [hmap]
  cases hget : hget db.slots (key, holder) with
  | none => simp
  | some used =>
    rw [hget] at hnonneg
    simp only [getD_some, map_some, releaseRow, QuotaStep.releases] at hnonneg ⊢
    by_cases hholder : holder = holder₀
    · subst hholder
      rw [if_pos rfl, if_pos rfl]
      dsimp only
      cases hlookup : counts.lookup key with
      | none => simp
      | some n =>
        rw [hlookup] at hle
        simp only [getD_some, map_some] at hle ⊢
        omega
    · rw [if_neg hholder, if_neg (Ne.symm hholder)]
      simp

lemma usedBy_deleteHolders {gone : String → ℤ → Bool} {e : ℤ}
    (hkept : hget (db.deleteHolders gone).holders holder = some e) (key : String) :
    (db.deleteHolders gone).usedBy key holder = db.usedBy key holder := by
  rw [SlotsSound.hget_deleteHolders, filter_eq_some_iff] at hkept
  have hslots : hget (db.deleteHolders gone).slots (key, holder) =
      Hash.hget db.slots (key, holder) := by
    rw [Hash.hget, deleteHolders, Table.get?_filter, Hash.hget]
    cases hget : db.slots.get? (key, holder) with
    | none => rfl
    | some r =>
      have hr : r.1 = (key, holder) := Table.key_of_get? hget
      have hstays : gone holder e = false := by simpa using hkept.2
      simp [Option.filter, hr, hkept.1, hstays]
  rw [usedBy, hslots, usedBy]

lemma usedBy_quotaReap (db : QuotaDb) (now : ℤ) (picks : ReapPicks) (limit : ℕ)
    (key holder : String) :
    (db.quotaReap now picks limit).2.usedBy key holder = db.usedBy key holder := by
  have hidle : ((db.reapExpired now picks.expired limit).2.reapIdle picks.idle limit).2.slots =
      db.slots :=
    (SlotsSound.reapWindow_slots now (picked db.windows
      (fun r => picks.expired r.1 && !(db.gone now r.1).isEmpty) limit) db).1
  have hslots : (db.quotaReap now picks limit).2.slots =
      (picked db.slots (fun r => picks.unused r.1 && decide (r.2 = 0)) limit).foldl hdel
        db.slots := by
    rw [← hidle]
    rfl
  rw [usedBy, hslots, hget_foldl_hdel]
  split
  next hpicked =>
    obtain ⟨r, hr, hk⟩ := mem_map.mp hpicked
    obtain ⟨hrow, hzero⟩ := mem_filter.mp (mem_of_mem_take hr)
    have hget := mem_rows_iff.mp hrow
    simp only [Bool.and_eq_true, decide_eq_true_eq] at hzero
    rw [usedBy, ← hk, hget, hzero.2]
    rfl
  · rfl

end QuotaDb

lemma QuotaWorld.usedBy_next {w : QuotaWorld} (h : w.db.SlotsSound) {s : QuotaStep}
    {key holder : String} (hlive : (w.next s).db.live (w.next s).now holder = true) :
    w.db.usedBy key holder ≤ (w.next s).db.usedBy key holder + s.releases key holder := by
  obtain ⟨e, he, -⟩ := live_iff.mp hlive
  cases s with
  | tick ms => simp [next, QuotaStep.releases]
  | register holder' ttl =>
    simp only [next, registerQuotaHolder, QuotaStep.releases]
    split <;> exact le_of_eq (add_zero _).symm
  | renew holder' ttl =>
    simp only [next, renewQuotaHolder, QuotaStep.releases]
    split <;> exact le_of_eq (add_zero _).symm
  | acquire holder' key' n limit =>
    simp only [next, usedBy_quotaAcquire, QuotaStep.releases]
    split <;> omega
  | release holder' counts => exact usedBy_releaseQuotaSlots h holder' counts key holder
  | delete holder' | reapHolders grace =>
    exact le_of_eq ((usedBy_deleteHolders he key).symm.trans (add_zero _).symm)
  | admitQuota key' n limit window =>
    have hslots := (QuotaDb.SlotsSound.quotaAdmit_slots w.db w.now key' n limit window).1
    exact le_of_eq ((usedBy_congr hslots key holder).symm.trans (add_zero _).symm)
  | reap picks limit =>
    refine le_of_eq ?_
    simp only [next, usedBy_quotaReap, QuotaStep.releases]
    exact (add_zero _).symm

end LlmdAsync.SqlQueue
