import LlmdAsync.Redis.QuotaStore

/-!
# The concurrency quota in Redis

Any number of callers of `AcquireSlot` of `pkg/redis/quota_store.go`, on any keys.  Whoever gets a
slot also gets a function that returns it, and calls it at any later time and at most once; its
script runs some time after the call.  A slot is held until the function is called.

The counter of a key lives for its time to live after the last `AcquireSlot` that found a slot and
after the last return that left slots in use.  A slot that is held for longer, while nobody else
gets or returns one, is forgotten: the next `AcquireSlot` starts a new counter, and later the
function of the forgotten slot takes one off it.  As long as no `AcquireSlot` finds that the counter
of slots in use has expired, no more slots are held than the limit (`held_le_limit`).
-/

namespace LlmdAsync.Redis

open Option Function QuotaStore

/-- The store, and for each key the number of slots that are held and of those that are on their
way back. -/
structure SlotWorld where
  store : QuotaStore
  /-- Successful acquires whose release function has not been called. -/
  held : String → ℕ
  /-- Release functions that have been called and whose script has not run. -/
  returning : String → ℕ

inductive SlotStep where
  /-- The script of `AcquireSlot` runs. -/
  | acquire (key : String) (limit : ℤ)
  /-- The holder of a slot calls its release function. -/
  | callRelease (key : String)
  /-- The script of a release function runs. -/
  | release (key : String)
  /-- Time passes in Redis. -/
  | tick (ms : ℕ)
deriving DecidableEq, Repr

namespace SlotWorld

/-- The world after a step.  A release function that nobody has is not called. -/
def next (w : SlotWorld) : SlotStep → SlotWorld
  | .acquire key limit =>
    let answer := w.store.acquireSlot key limit
    { w with
      store := answer.2
      held := if answer.1 = .ok true then Function.update w.held key (w.held key + 1) else w.held }
  | .callRelease key =>
    if w.held key = 0 then w
    else { w with
      held := Function.update w.held key (w.held key - 1)
      returning := Function.update w.returning key (w.returning key + 1) }
  | .release key =>
    if w.returning key = 0 then w
    else { w with
      store := (w.store.releaseSlot key).2
      returning := Function.update w.returning key (w.returning key - 1) }
  | .tick ms => { w with store := { w.store with redisMs := w.store.redisMs + ms } }

def run (w : SlotWorld) (steps : List SlotStep) : SlotWorld := steps.foldl next w

/-- An `AcquireSlot` of the key does not find that the counter of slots in use has expired. -/
def remembers (key : String) (w : SlotWorld) : SlotStep → Bool
  | .acquire k _ =>
    decide (k = key → w.store.found key = none → w.held key = 0 ∧ w.returning key = 0)
  | _ => true

/-- No step finds that the counter of slots in use has expired. -/
def remembering (key : String) (w : SlotWorld) : List SlotStep → Bool
  | [] => true
  | step :: steps => w.remembers key step && (w.next step).remembering key steps

/-- The key has not been used. -/
structure Fresh (w : SlotWorld) (key : String) : Prop where
  found : w.store.found key = none
  held : w.held key = 0
  returning : w.returning key = 0

/-- The counter, as long as there is one, counts the slots in use, and these are within the
limit. -/
structure Counted (w : SlotWorld) (key : String) (limit : ℤ) : Prop where
  counter : ∀ k, w.store.found key = some k →
    ∃ n : ℕ, k.value = .counter n ∧ w.held key + w.returning key = n
  le_limit : (w.held key + w.returning key : ℕ) ≤ limit

variable {w : SlotWorld} {key : String} {limit : ℤ}

/-! ### One step -/

lemma found_acquireSlot_of_ne {s : QuotaStore} {k : String} (hne : key ≠ k) (l : ℤ) :
    (s.acquireSlot k l).2.found key = s.found key := by
  have hput : ∀ value, (s.putFor k value s.counterTTL).found key = s.found key := fun value =>
    (found_putFor s k value s.counterTTL_nonneg key).trans (if_neg hne)
  unfold acquireSlot
  split
  · exact hput _
  · split
    · rfl
    · exact hput _
  · rfl

lemma found_releaseSlot_of_ne {s : QuotaStore} {k : String} (hne : key ≠ k) :
    (s.releaseSlot k).2.found key = s.found key := by
  unfold releaseSlot
  split
  · rfl
  · rfl
  next e hone =>
    exact (found_put s k _ (expireAt_of_found hone) key).trans (if_neg hne)
  · exact (found_putFor s k _ s.counterTTL_nonneg key).trans (if_neg hne)
  · rfl

lemma found_of_tick {s : QuotaStore} {ms : ℕ} {k : QuotaKey}
    (h : found { s with redisMs := s.redisMs + ms } key = some k) :
    s.found key = some k := by
  obtain ⟨hget, hlive⟩ := filter_eq_some_iff.mp h
  have hlive : s.redisMs + ms ≤ k.expireAt := of_decide_eq_true hlive
  exact filter_eq_some_iff.mpr ⟨hget, decide_eq_true (by omega)⟩

lemma Counted.acquire (h : w.Counted key limit) (hlimit : 1 ≤ limit)
    (hknown : w.store.found key = none → w.held key = 0 ∧ w.returning key = 0) :
    (w.next (.acquire key limit)).Counted key limit := by
  have hgrant : ∀ n : ℕ, w.held key + w.returning key = n → (n : ℤ) < limit →
      w.store.acquireSlot key limit =
        (.ok true, w.store.putFor key (.counter (n + 1)) w.store.counterTTL) →
      (w.next (.acquire key limit)).Counted key limit := by
    intro n hn hlt hacq
    have hheld : (w.next (.acquire key limit)).held key = w.held key + 1 := by
      simp only [next, hacq, if_pos, update_self]
    have hret : (w.next (.acquire key limit)).returning key = w.returning key := rfl
    have hstore : (w.next (.acquire key limit)).store =
        w.store.putFor key (.counter (n + 1)) w.store.counterTTL := by
      simp only [next, hacq]
    refine ⟨fun k hk => ⟨n + 1, ?_, ?_⟩, ?_⟩
    · rw [hstore, found_putFor _ _ _ w.store.counterTTL_nonneg, if_pos rfl, some.injEq] at hk
      rw [← hk]
    · rw [hheld, hret]
      omega
    · rw [hheld, hret]
      omega
  have hrefuse : ∀ r, w.store.acquireSlot key limit = (r, w.store) → r ≠ .ok true →
      (w.next (.acquire key limit)).Counted key limit := by
    intro r hacq hr
    have hsame : w.next (.acquire key limit) = w := by
      simp only [next, hacq, if_neg hr]
    rw [hsame]
    exact h
  cases hfound : w.store.found key with
  | none =>
    obtain ⟨hheld, hret⟩ := hknown hfound
    refine hgrant 0 (by omega) (by omega) ?_
    simp only [acquireSlot, hfound]
  | some k =>
    obtain ⟨n, hvalue, hn⟩ := h.counter k hfound
    obtain ⟨value, expireAt⟩ := k
    cases hvalue
    by_cases hfull : limit ≤ n
    · refine hrefuse (.ok false) ?_ (by simp)
      simp only [acquireSlot, hfound, if_pos hfull]
    · refine hgrant n hn (by omega) ?_
      simp only [acquireSlot, hfound, if_neg hfull]

lemma Counted.release (h : w.Counted key limit) (hret : w.returning key ≠ 0) :
    ({ w with
      store := (w.store.releaseSlot key).2
      returning := update w.returning key (w.returning key - 1) } :
      SlotWorld).Counted key limit := by
  have hle := h.le_limit
  refine ⟨fun k hk => ?_, ?_⟩
  · show ∃ n : ℕ, k.value = .counter n ∧
      w.held key + update w.returning key (w.returning key - 1) key = n
    rw [update_self]
    cases hfound : w.store.found key with
    | none =>
      simp only [releaseSlot, hfound] at hk
      cases hk
    | some k₀ =>
      obtain ⟨n, hvalue, hn⟩ := h.counter k₀ hfound
      obtain ⟨value, expireAt⟩ := k₀
      cases hvalue
      match n, hn, hfound with
      | 0, hn, _ => omega
      | 1, hn, hfound =>
        simp only [releaseSlot, hfound] at hk
        rw [found_put _ _ _ (expireAt_of_found hfound), if_pos rfl, some.injEq] at hk
        exact ⟨0, by rw [← hk], by omega⟩
      | n + 2, hn, hfound =>
        simp only [releaseSlot, hfound] at hk
        rw [found_putFor _ _ _ w.store.counterTTL_nonneg, if_pos rfl, some.injEq] at hk
        exact ⟨n + 1, by rw [← hk], by omega⟩
  · show ((w.held key + update w.returning key (w.returning key - 1) key : ℕ) : ℤ) ≤ limit
    rw [update_self]
    omega

lemma Counted.congr {w' : SlotWorld} (h : w.Counted key limit)
    (hfound : ∀ k, w'.store.found key = some k → w.store.found key = some k)
    (hheld : w'.held key + w'.returning key = w.held key + w.returning key) :
    w'.Counted key limit := by
  refine ⟨fun k hk => ?_, ?_⟩
  · obtain ⟨n, hvalue, hn⟩ := h.counter k (hfound k hk)
    exact ⟨n, hvalue, hheld.trans hn⟩
  · rw [hheld]
    exact h.le_limit

lemma Counted.step (h : w.Counted key limit) (hlimit : 1 ≤ limit) {step : SlotStep}
    (hfixed : ∀ l, step = .acquire key l → l = limit) (hknown : w.remembers key step = true) :
    (w.next step).Counted key limit := by
  cases step with
  | acquire k l =>
    by_cases hk : k = key
    · subst hk
      rw [hfixed l rfl]
      exact h.acquire hlimit (of_decide_eq_true hknown rfl)
    · have hne : key ≠ k := fun heq => hk heq.symm
      refine h.congr (fun q hq => ?_) ?_
      · exact (found_acquireSlot_of_ne hne l).symm.trans hq
      · show (if _ then update w.held k (w.held k + 1) else w.held) key + _ = _
        split
        · rw [update_of_ne hne]
          rfl
        · rfl
  | callRelease k =>
    simp only [next]
    split
    · exact h
    next hheld =>
      refine h.congr (fun q hq => hq) ?_
      show update w.held k (w.held k - 1) key +
        update w.returning k (w.returning k + 1) key = _
      by_cases hk : key = k
      · subst hk
        rw [update_self, update_self]
        omega
      · rw [update_of_ne hk, update_of_ne hk]
  | release k =>
    simp only [next]
    split
    · exact h
    next hret =>
      by_cases hk : key = k
      · subst hk
        exact h.release hret
      · refine h.congr (fun q hq => (found_releaseSlot_of_ne hk).symm.trans hq) ?_
        show w.held key + update w.returning k (w.returning k - 1) key = _
        rw [update_of_ne hk]
  | tick ms => exact h.congr (fun q hq => found_of_tick hq) rfl

/-! ### Runs -/

lemma Counted.run (h : w.Counted key limit) (hlimit : 1 ≤ limit) {steps : List SlotStep}
    (hfixed : ∀ l, SlotStep.acquire key l ∈ steps → l = limit)
    (hknown : w.remembering key steps = true) : (w.run steps).Counted key limit := by
  induction steps generalizing w with
  | nil => exact h
  | cons step steps ih =>
    rw [remembering, Bool.and_eq_true] at hknown
    have hstep : (w.next step).Counted key limit :=
      h.step hlimit (fun l hl => hfixed l (hl ▸ List.mem_cons_self)) hknown.1
    exact ih hstep (fun l hl => hfixed l (List.mem_cons_of_mem _ hl)) hknown.2

end SlotWorld

/-- The concurrency quota bounds the slots that are held.  In every run of acquires and releases of
any keys and of passing time, in which the acquires of the key have the same limit of at least one,
and none of them finds that the counter of slots still in use has expired, no more slots of the key
are held than the limit. -/
theorem held_le_limit (key : String) (limit : ℤ) (hlimit : 1 ≤ limit) (w : SlotWorld)
    (hfresh : w.Fresh key) (steps : List SlotStep)
    (hfixed : ∀ l, SlotStep.acquire key l ∈ steps → l = limit)
    (hknown : w.remembering key steps = true) : ((w.run steps).held key : ℤ) ≤ limit := by
  have hstart : w.Counted key limit := by
    refine ⟨fun k hk => ?_, ?_⟩
    · rw [hfresh.found] at hk
      cases hk
    · rw [hfresh.held, hfresh.returning]
      omega
  have hend := (hstart.run hlimit hfixed hknown).le_limit
  omega

/-- A store whose counters live for a minute. -/
def SlotWorld.minute : SlotWorld := ⟨⟨60000000000, .empty, 0, 0⟩, fun _ => 0, fun _ => 0⟩

/-- A second caller is refused, gets the slot after it was returned, and keeps it for a while. -/
def slotRun : List SlotStep :=
  [.acquire "k" 1, .tick 50000, .acquire "k" 1, .callRelease "k", .release "k", .acquire "k" 1,
    .tick 50000, .acquire "k" 1]

/-- In this run one slot is held in the end. -/
theorem slotRun_held_le :
    (SlotWorld.minute.run slotRun).held "k" = 1 ∧
      ((SlotWorld.minute.run slotRun).held "k" : ℤ) ≤ 1 :=
  ⟨by decide +kernel, held_le_limit "k" 1 (by decide) SlotWorld.minute ⟨rfl, rfl, rfl⟩ slotRun
    (by simp [slotRun]) (by decide +kernel)⟩

/-- A slot is held for longer than a minute, and a second caller asks again and again. -/
def longHeld : List SlotStep :=
  [.acquire "k" 1, .tick 50000, .acquire "k" 1, .tick 10001, .acquire "k" 1]

/-- In this run two slots are held in the end, although the limit is one. -/
theorem longHeld_exceeds : (1 : ℤ) < (SlotWorld.minute.run longHeld).held "k" := by
  decide +kernel

end LlmdAsync.Redis
