import LlmdAsync.Redis.QuotaStore

/-!
# The rate quota in Redis

Any number of callers of `Admit` of `pkg/redis/quota_store.go` on one key, with one limit and one
window.  A caller reads its clock and runs the script later, so scripts run in any order of the
readings.  No window should contain more readings of admitted calls than the limit.

The log forgets too much for that.  A reading that is there already is not added again, a script
with a later reading removes times that an earlier one should still count, the rounding of scores
removes times too early, and the key may expire while a script is on its way.  As long as none of
this happens, the bound holds (`admitted_in_window`).
-/

namespace LlmdAsync.Redis

/-- The store, the readings of the callers whose scripts have not run, and the readings of those
that were admitted, last first. -/
structure RateWorld where
  store : QuotaStore
  pending : ℕ → Option ℤ
  admitted : List ℤ

inductive RateStep where
  /-- A caller reads its clock. -/
  | read (caller : ℕ) (now : ℤ)
  /-- The script of a caller runs. -/
  | script (caller : ℕ)
  /-- Time passes in Redis. -/
  | tick (ms : ℕ)
deriving DecidableEq, Repr

namespace RateWorld

section Steps

variable (key : String) (limit : ℕ) (window : ℤ)

/-- The store as the script of a caller finds it. -/
def atReading (w : RateWorld) (now : ℤ) : QuotaStore := { w.store with nowNs := now }

def next (w : RateWorld) : RateStep → RateWorld
  | .read caller now => { w with pending := Function.update w.pending caller (some now) }
  | .script caller =>
    match w.pending caller with
    | none => w
    | some now =>
      let answer := (w.atReading now).admitRate key limit window
      { store := answer.2
        pending := Function.update w.pending caller none
        admitted := if answer.1 = .ok true then now :: w.admitted else w.admitted }
  | .tick ms => { w with store := { w.store with redisMs := w.store.redisMs + ms } }

def run (w : RateWorld) (steps : List RateStep) : RateWorld := steps.foldl (next key limit window) w

/-- The times the script counts. -/
def counted (w : RateWorld) (now : ℤ) : Finset ℤ :=
  match (w.atReading now).found key with
  | some ⟨.log times, _⟩ => (w.atReading now).recent window times
  | _ => ∅

/-- If the script of a caller is going to admit it, then nobody was admitted with the same reading,
and it counts all who were admitted with a reading less than the window away. -/
def remembers (w : RateWorld) : RateStep → Bool
  | .script caller =>
    match w.pending caller with
    | none => true
    | some now => decide (((w.atReading now).admitRate key limit window).1 = .ok true →
        now ∉ w.admitted ∧
        ∀ t ∈ w.admitted, now - window < t → t < now + window → t ∈ w.counted key window now)
  | _ => true

def remembering (w : RateWorld) : List RateStep → Bool
  | [] => true
  | step :: steps =>
    w.remembers key limit window step && (w.next key limit window step).remembering steps

end Steps

/-! ### Spread readings -/

/-- Each reading is new, and fewer than `limit` of the earlier ones are less than the window away
from it. -/
def Spread (limit : ℕ) (window : ℤ) : List ℤ → Prop
  | [] => True
  | now :: earlier => now ∉ earlier ∧
      (earlier.filter fun t => now - window < t ∧ t < now + window).length < limit ∧
      Spread limit window earlier

lemma Spread.nodup {limit : ℕ} {window : ℤ} {l : List ℤ} (h : Spread limit window l) : l.Nodup := by
  induction l with
  | nil => exact List.nodup_nil
  | cons now earlier ih => exact List.nodup_cons.mpr ⟨h.1, ih h.2.2⟩

lemma Spread.window_le {limit : ℕ} {window : ℤ} {l : List ℤ} (h : Spread limit window l) (t : ℤ) :
    (l.filter fun x => t - window < x ∧ x ≤ t).length ≤ limit := by
  induction l with
  | nil => exact Nat.zero_le _
  | cons now earlier ih =>
    obtain ⟨-, hfew, hrest⟩ := h
    rw [List.filter_cons]
    split
    · -- all others in the window are near the last one
      rename_i hnow
      have hnow : t - window < now ∧ now ≤ t := of_decide_eq_true hnow
      have hsub : (earlier.filter fun x => t - window < x ∧ x ≤ t).Sublist
          (earlier.filter fun x => now - window < x ∧ x < now + window) := by
        refine List.monotone_filter_right earlier fun x hx => ?_
        have hx : t - window < x ∧ x ≤ t := of_decide_eq_true hx
        exact decide_eq_true (by omega)
      rw [List.length_cons]
      exact Nat.lt_of_le_of_lt hsub.length_le hfew
    · exact ih hrest

/-! ### One step -/

variable {key : String} {limit : ℕ} {window : ℤ} {w : RateWorld}

lemma card_counted_lt {now : ℤ} (h : ((w.atReading now).admitRate key limit window).1 = .ok true) :
    (w.counted key window now).card < limit := by
  unfold counted
  unfold QuotaStore.admitRate at h
  split at h
  next hnone =>
    rw [hnone]
    split at h
    · cases h
    next hlimit =>
      rw [Finset.card_empty]
      omega
  next times e hlog =>
    rw [hlog]
    split at h
    · cases h
    next hcount =>
      exact_mod_cast not_le.mp hcount
  · cases h

lemma spread_admitted {now : ℤ} (h : Spread limit window w.admitted) (hnew : now ∉ w.admitted)
    (hnear : ∀ t ∈ w.admitted, now - window < t → t < now + window → t ∈ w.counted key window now)
    (hgrant : ((w.atReading now).admitRate key limit window).1 = .ok true) :
    Spread limit window (now :: w.admitted) := by
  refine ⟨hnew, ?_, h⟩
  have hnodup := h.nodup.filter fun t => decide (now - window < t ∧ t < now + window)
  rw [← List.toFinset_card_of_nodup hnodup]
  refine Nat.lt_of_le_of_lt (Finset.card_le_card fun t ht => ?_) (card_counted_lt hgrant)
  rw [List.mem_toFinset, List.mem_filter, decide_eq_true_eq] at ht
  exact hnear t ht.1 ht.2.1 ht.2.2

lemma Spread.next {step : RateStep} (h : Spread limit window w.admitted)
    (hstep : w.remembers key limit window step = true) :
    Spread limit window (w.next key limit window step).admitted := by
  cases step with
  | read caller now | tick ms => exact h
  | script caller =>
    cases hpending : w.pending caller with
    | none =>
      simp only [RateWorld.next, hpending]
      exact h
    | some now =>
      simp only [remembers, hpending, decide_eq_true_eq] at hstep
      simp only [RateWorld.next, hpending]
      split
      next hgrant =>
        obtain ⟨hnew, hnear⟩ := hstep hgrant
        exact spread_admitted h hnew hnear hgrant
      · exact h

lemma Spread.run {steps : List RateStep} (h : Spread limit window w.admitted)
    (hsteps : w.remembering key limit window steps = true) :
    Spread limit window (w.run key limit window steps).admitted := by
  induction steps generalizing w with
  | nil => exact h
  | cons step steps ih =>
    rw [remembering, Bool.and_eq_true] at hsteps
    exact ih (h.next hsteps.1) hsteps.2

end RateWorld

/-- Nobody has called `Admit`. -/
def RateWorld.initial (store : QuotaStore) : RateWorld := ⟨store, fun _ => none, []⟩

/-- Whatever the order in which callers read their clocks and their scripts run: as long as every
script that admits a caller finds nobody with the same reading, and counts all admitted callers
whose readings are less than the window away, at most `limit` of the admitted readings lie in any
interval of the length of the window. -/
theorem admitted_in_window (store : QuotaStore) (key : String) (limit : ℕ) (window : ℤ)
    {steps : List RateStep}
    (h : (RateWorld.initial store).remembering key limit window steps = true) (t : ℤ) :
    (((RateWorld.initial store).run key limit window steps).admitted.filter fun now =>
      t - window < now ∧ now ≤ t).length ≤ limit :=
  (RateWorld.Spread.run (w := .initial store) trivial h).window_le t

def QuotaStore.fresh : QuotaStore := ⟨0, .empty, 0, 0⟩

/-- Two callers at once, and one that has to wait for the first to leave the window. -/
def spreadRun : List RateStep :=
  [.read 0 5, .read 1 8, .script 1, .script 0, .read 2 14, .script 2, .read 2 15, .script 2]

theorem spreadRun_in_window :
    ((RateWorld.initial .fresh).run "k" 2 10 spreadRun).admitted = [15, 5, 8] ∧
      (((RateWorld.initial .fresh).run "k" 2 10 spreadRun).admitted.filter fun now =>
        (15 : ℤ) - 10 < now ∧ now ≤ 15).length ≤ 2 :=
  ⟨by decide +kernel, admitted_in_window .fresh "k" 2 10 (by decide +kernel) 15⟩

/-- Three callers with the same reading. -/
def equalReadings : List RateStep :=
  [.read 0 5, .read 1 5, .read 2 5, .script 0, .script 1, .script 2]

/-- A script with a later reading overtakes one with an earlier reading. -/
def overtakenScript : List RateStep :=
  [.read 0 10, .script 0, .read 1 11, .script 1, .read 2 12, .read 3 21, .script 3, .script 2]

/-- The bound of the second script, one nanosecond before the first reading, is the same double. -/
def roundedScores : List RateStep :=
  [.read 0 1700000000000000000, .script 0, .read 1 1700000000000000999, .script 1]

/-- The script of the second caller runs when the key has expired. -/
def expiredLog : List RateStep :=
  [.read 0 10, .script 0, .read 1 11, .tick 2001, .script 1]

/-- How many callers a run admits with readings in the window that ends at `now`. -/
def admittedUntil (ls : List RateStep) (limit : ℕ) (window now : ℤ) : ℕ :=
  (((RateWorld.initial .fresh).run "k" limit window ls).admitted.filter fun reading =>
    now - window < reading ∧ reading ≤ now).length

/-- In each of these runs more callers than the limit are admitted with readings in one window. -/
theorem forgotten_admissions_exceed :
    2 < admittedUntil equalReadings 2 10 5 ∧ 2 < admittedUntil overtakenScript 2 10 12 ∧
      1 < admittedUntil roundedScores 1 1000 1700000000000000999 ∧
      1 < admittedUntil expiredLog 1 1000000000 11 := by
  decide +kernel

end LlmdAsync.Redis
