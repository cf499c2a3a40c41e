import LlmdAsync.SqlQueue.Quota

/-!
# The concurrency quota is not exceeded

`liveUsed` adds up the slots of a key over the holders with live leases.  `async_quota_acquire` is
the only statement that can raise it, and not above the limit (`liveUsed_quotaAcquire`).  Every
other statement, and time, can only lower it: a holder that is registered has no slots, because a
holder is deleted together with its slots, and only a live lease is renewed.
-/

namespace LlmdAsync.SqlQueue

open List Option Hash Table QuotaDb QuotaWorld

namespace QuotaDb

variable {db db' : QuotaDb} {now now' : ℤ} {key : String}

/-! ### The sum of a key -/

/-- What a row of `async_quota_slots` adds to the sum of a key. -/
def counted (db : QuotaDb) (now : ℤ) (key : String) (r : (String × String) × ℤ) : ℤ :=
  if decide (r.1.1 = key) && db.live now r.1.2 then r.2 else 0

lemma liveUsed_eq_sumOf (db : QuotaDb) (now : ℤ) (key : String) :
    db.liveUsed now key = db.slots.sumOf (db.counted now key) :=
  sum_map_filter ..

lemma counted_congr (hh : db'.holders = db.holders) (now : ℤ) (key : String) :
    db'.counted now key = db.counted now key := by
  funext r
  unfold counted live
  rw [hh]

lemma liveUsed_congr (hs : db'.slots = db.slots) (hh : db'.holders = db.holders) :
    db'.liveUsed now key = db.liveUsed now key := by
  unfold liveUsed live
  rw [hs, hh]

/-- What is known of the slots and the holders. -/
structure SlotsSound (db : QuotaDb) : Prop where
  /-- No count is negative. -/
  nonneg : ∀ r ∈ db.slots, 0 ≤ r.2
  /-- Slots belong to registered holders. -/
  held : ∀ r ∈ db.slots, (Hash.hget db.holders r.1.2).isSome = true

lemma SlotsSound.counted_nonneg (h : db.SlotsSound) {r : (String × String) × ℤ}
    (hr : r ∈ db.slots) : 0 ≤ db.counted now key r := by
  unfold counted
  split
  · exact h.nonneg r hr
  · exact le_refl 0

lemma SlotsSound.counted_le (h : db.SlotsSound) {r : (String × String) × ℤ} (hr : r ∈ db.slots)
    (hlive : db'.live now' r.1.2 = true → db.live now r.1.2 = true) :
    db'.counted now' key r ≤ db.counted now key r := by
  by_cases hl : db'.live now' r.1.2 = true
  · unfold counted
    rw [hl, hlive hl]
  · refine le_trans (le_of_eq ?_) (h.counted_nonneg hr)
    simp [counted, hl]

lemma SlotsSound.liveUsed_le (h : db.SlotsSound) (p : (String × String) × ℤ → Bool)
    (hs : db'.slots = db.slots.filter p)
    (hlive : ∀ r ∈ db'.slots, db'.live now' r.1.2 = true → db.live now r.1.2 = true) :
    db'.liveUsed now' key ≤ db.liveUsed now key := by
  rw [liveUsed_eq_sumOf, liveUsed_eq_sumOf]
  have hmem : ∀ r ∈ db'.slots, r ∈ db.slots := by
    intro r hr
    rw [hs] at hr
    exact (Table.mem_filter.mp hr).1
  refine le_trans (sumOf_le_sumOf fun r hr => h.counted_le (hmem r hr) (hlive r hr)) ?_
  rw [hs]
  exact sumOf_filter_le p fun r hr => h.counted_nonneg hr

lemma SlotsSound.liveUsed_le_of_live (h : db.SlotsSound) (hs : db'.slots = db.slots)
    (hlive : ∀ r ∈ db.slots, db'.live now' r.1.2 = true → db.live now r.1.2 = true) :
    db'.liveUsed now' key ≤ db.liveUsed now key := by
  rw [liveUsed_eq_sumOf, liveUsed_eq_sumOf, hs]
  exact sumOf_le_sumOf fun r hr => h.counted_le hr (hlive r hr)

lemma live_iff {holder : String} :
    db.live now holder = true ↔ ∃ e, hget db.holders holder = some e ∧ now < e := by
  simp [live, Option.any_eq_true]

lemma mem_slots {k : String × String} {used : ℤ} (h : hget db.slots k = some used) :
    (k, used) ∈ db.slots :=
  mem_rows_iff.mpr h

/-! ### One statement -/

namespace SlotsSound

variable {holder : String} {ttl : ℤ}

lemma initial : initial.SlotsSound :=
  ⟨fun _ hr => absurd hr not_mem_empty, fun _ hr => absurd hr not_mem_empty⟩

lemma setLease (h : db.SlotsSound) (holder : String) (expires : ℤ) :
    SlotsSound { db with holders := hset db.holders holder expires } := by
  refine ⟨h.nonneg, fun r hr => ?_⟩
  rw [hget_hset]
  split
  · rfl
  · exact h.held r hr

lemma no_slots (h : db.SlotsSound) (hnew : hget db.holders holder = none) (key : String) :
    hget db.slots (key, holder) = none := by
  cases hused : hget db.slots (key, holder) with
  | none => rfl
  | some used =>
    have hheld := h.held _ (mem_slots hused)
    rw [hnew] at hheld
    cases hheld

lemma registerQuotaHolder (h : db.SlotsSound) (now : ℤ) (holder : String) (ttl : ℤ) :
    (db.registerQuotaHolder now holder ttl).2.SlotsSound := by
  unfold QuotaDb.registerQuotaHolder
  split
  · exact h
  · exact h.setLease holder _

lemma liveUsed_registerQuotaHolder (h : db.SlotsSound) :
    (db.registerQuotaHolder now holder ttl).2.liveUsed now key = db.liveUsed now key := by
  unfold QuotaDb.registerQuotaHolder
  split
  · rfl
  next hnew =>
    rw [not_isSome_iff_eq_none] at hnew
    rw [liveUsed_eq_sumOf, liveUsed_eq_sumOf]
    refine sumOf_congr fun r hr => ?_
    -- The new holder has no slots, so that no row is about it.
    have hne : r.1.2 ≠ holder := by
      rintro rfl
      have := h.held r hr
      rw [hnew] at this
      cases this
    rw [counted, counted, live, live, hget_hset_of_ne _ _ hne]

lemma renewQuotaHolder (h : db.SlotsSound) (now : ℤ) (holder : String) (ttl : ℤ) :
    (db.renewQuotaHolder now holder ttl).2.SlotsSound := by
  unfold QuotaDb.renewQuotaHolder
  split
  · exact h.setLease holder _
  · exact h

lemma liveUsed_renewQuotaHolder (h : db.SlotsSound) :
    (db.renewQuotaHolder now holder ttl).2.liveUsed now key ≤ db.liveUsed now key := by
  unfold QuotaDb.renewQuotaHolder
  split
  next hold =>
    refine h.liveUsed_le_of_live rfl fun r hr hlive => ?_
    by_cases hr : r.1.2 = holder
    · rw [hr]
      exact hold
    · rwa [live, hget_hset_of_ne _ _ hr] at hlive
  · exact le_refl _

lemma liveUsed_tick (h : db.SlotsSound) (ms : ℕ) :
    db.liveUsed (now + ms) key ≤ db.liveUsed now key := by
  refine h.liveUsed_le_of_live rfl fun r _ hlive => ?_
  obtain ⟨e, he, hlt⟩ := live_iff.mp hlive
  exact live_iff.mpr ⟨e, he, by omega⟩

lemma releaseRow_snd (counts : List (String × ℕ)) {r : (String × String) × ℤ} (hr : 0 ≤ r.2) :
    0 ≤ (releaseRow holder counts r).2 ∧ (releaseRow holder counts r).2 ≤ r.2 := by
  unfold releaseRow
  split
  · cases counts.lookup r.1.1 with
    | none => exact ⟨hr, le_refl _⟩
    | some n =>
      simp only [map_some, getD_some]
      omega
  · exact ⟨hr, le_refl _⟩

lemma releaseQuotaSlots (h : db.SlotsSound) (holder : String) (counts : List (String × ℕ)) :
    (db.releaseQuotaSlots holder counts).SlotsSound := by
  refine ⟨fun r hr => ?_, fun r hr => ?_⟩
  · simp only [QuotaDb.releaseQuotaSlots, Table.mem_map] at hr
    obtain ⟨r₀, hr₀, rfl⟩ := hr
    exact (releaseRow_snd counts (h.nonneg r₀ hr₀)).1
  · simp only [QuotaDb.releaseQuotaSlots, Table.mem_map] at hr
    obtain ⟨r₀, hr₀, rfl⟩ := hr
    rw [releaseRow_fst]
    exact h.held r₀ hr₀

lemma liveUsed_releaseQuotaSlots (h : db.SlotsSound) (counts : List (String × ℕ)) :
    (db.releaseQuotaSlots holder counts).liveUsed now key ≤ db.liveUsed now key := by
  have hcounted : (db.releaseQuotaSlots holder counts).counted now key = db.counted now key :=
    counted_congr rfl now key
  rw [liveUsed_eq_sumOf, liveUsed_eq_sumOf, hcounted, QuotaDb.releaseQuotaSlots, sumOf_map]
  refine sumOf_le_sumOf fun r hr => ?_
  by_cases hc : (decide (r.1.1 = key) && db.live now r.1.2) = true
  · simp only [counted, releaseRow_fst, hc, if_true]
    exact (releaseRow_snd counts (h.nonneg r hr)).2
  · simp only [counted, releaseRow_fst, hc]
    exact le_refl _

lemma hget_deleteHolders (db : QuotaDb) (gone : String → ℤ → Bool) (holder : String) :
    hget (db.deleteHolders gone).holders holder =
      (hget db.holders holder).filter fun e => !gone holder e := by
  unfold deleteHolders hget
  rw [get?_filter]
  cases hget : db.holders.get? holder with
  | none => rfl
  | some r =>
    obtain rfl := key_of_get? hget
    cases hg : gone r.1 r.2 <;> simp [Option.filter, hg]

lemma deleteHolders (h : db.SlotsSound) (gone : String → ℤ → Bool) :
    (db.deleteHolders gone).SlotsSound := by
  refine ⟨fun r hr => h.nonneg r (Table.mem_filter.mp hr).1, fun r hr => ?_⟩
  obtain ⟨hmem, hkept⟩ := Table.mem_filter.mp hr
  obtain ⟨e, he⟩ := isSome_iff_exists.mp (h.held r hmem)
  rw [hget_deleteHolders, he]
  rw [he] at hkept
  simpa using hkept

lemma liveUsed_deleteHolders (h : db.SlotsSound) (gone : String → ℤ → Bool) :
    (db.deleteHolders gone).liveUsed now key ≤ db.liveUsed now key := by
  refine h.liveUsed_le _ rfl fun r _ hlive => ?_
  obtain ⟨e, he, hlt⟩ := live_iff.mp hlive
  rw [hget_deleteHolders] at he
  exact live_iff.mpr ⟨e, (filter_eq_some_iff.mp he).1, hlt⟩

lemma hdel_slots (h : db.SlotsSound) (ss : List (String × String)) :
    SlotsSound { db with slots := ss.foldl hdel db.slots } ∧
      liveUsed { db with slots := ss.foldl hdel db.slots } now key ≤ db.liveUsed now key := by
  induction ss generalizing db with
  | nil => exact ⟨h, le_refl _⟩
  | cons k ss ih =>
    have hdel : SlotsSound { db with slots := hdel db.slots k } :=
      ⟨fun r hr => h.nonneg r (Table.mem_filter.mp hr).1,
        fun r hr => h.held r (Table.mem_filter.mp hr).1⟩
    obtain ⟨hsound, hle⟩ := ih hdel
    exact ⟨hsound, hle.trans (h.liveUsed_le _ rfl fun _ _ hlive => hlive)⟩

lemma quotaAdmit_slots (db : QuotaDb) (now : ℤ) (key : String) (n : ℕ) (limit window : ℤ) :
    (db.quotaAdmit now key n limit window).2.slots = db.slots ∧
      (db.quotaAdmit now key n limit window).2.holders = db.holders := by
  simp only [quotaAdmit, lockWindow]
  split <;> exact ⟨rfl, rfl⟩

lemma reapWindow_slots (now : ℤ) (ws : List (String × ℤ)) (db : QuotaDb) :
    (ws.foldl (reapWindow now) db).slots = db.slots ∧
      (ws.foldl (reapWindow now) db).holders = db.holders := by
  induction ws generalizing db with
  | nil => exact ⟨rfl, rfl⟩
  | cons w ws ih => exact ih (reapWindow now db w)

lemma quotaReap (h : db.SlotsSound) (now : ℤ) (key : String) (picks : ReapPicks) (limit : ℕ) :
    (db.quotaReap now picks limit).2.SlotsSound ∧
      (db.quotaReap now picks limit).2.liveUsed now key ≤ db.liveUsed now key := by
  obtain ⟨hslots, hholders⟩ := reapWindow_slots now
    (picked db.windows (fun r => picks.expired r.1 && !(db.gone now r.1).isEmpty) limit) db
  have hidle :
      ((db.reapExpired now picks.expired limit).2.reapIdle picks.idle limit).2.SlotsSound :=
    ⟨fun r hr => h.nonneg r (hslots ▸ hr), fun r hr => hholders.symm ▸ h.held r (hslots ▸ hr)⟩
  have hle := @liveUsed_congr db
    ((db.reapExpired now picks.expired limit).2.reapIdle picks.idle limit).2 now key hslots hholders
  obtain ⟨hsound, hunused⟩ := hidle.hdel_slots (picked
    ((db.reapExpired now picks.expired limit).2.reapIdle picks.idle limit).2.slots
    (fun r => picks.unused r.1 && decide (r.2 = 0)) limit)
  exact ⟨⟨hsound.nonneg, hsound.held⟩, hunused.trans (le_of_eq hle)⟩

lemma addSlots (h : db.SlotsSound) (hlive : db.live now holder = true) (key : String) {n : ℤ}
    (hn : 0 ≤ n) : (db.addSlots key holder n).SlotsSound := by
  obtain ⟨e, he, -⟩ := live_iff.mp hlive
  have hput : ∀ r ∈ (db.addSlots key holder n).slots,
      r ∈ db.slots ∨ (r.1.2 = holder ∧ 0 ≤ r.2) := by
    intro r hr
    rw [← mem_rows, mem_rows_iff, QuotaDb.addSlots, hget_hset] at hr
    split at hr
    next hk =>
      right
      refine ⟨by rw [hk], ?_⟩
      have hold : 0 ≤ (hget db.slots (key, holder)).getD 0 := by
        cases hused : hget db.slots (key, holder) with
        | none => exact le_refl 0
        | some used => exact h.nonneg _ (mem_slots hused)
      rw [some.injEq] at hr
      omega
    · exact .inl (mem_rows_iff.mpr hr)
  refine ⟨fun r hr => (hput r hr).elim (h.nonneg r) And.right, fun r hr => ?_⟩
  refine (hput r hr).elim (h.held r) fun hr => ?_
  rw [hr.1]
  exact isSome_iff_exists.mpr ⟨e, he⟩

lemma quotaAcquire (h : db.SlotsSound) (now : ℤ) (key holder : String) (n : ℕ) (limit : ℤ) :
    (db.quotaAcquire now key holder n limit).2.SlotsSound := by
  have hlock : (db.lockKey key).SlotsSound := ⟨h.nonneg, h.held⟩
  simp only [QuotaDb.quotaAcquire]
  split
  next hlive =>
    split
    next hpos =>
      exact hlock.addSlots hlive key (le_of_lt hpos)
    · exact hlock
  · exact hlock

end SlotsSound

lemma liveUsed_addSlots {holder : String} (hlive : db.live now holder = true) (key₀ : String)
    (n : ℤ) :
    (db.addSlots key₀ holder n).liveUsed now key =
      db.liveUsed now key + if key₀ = key then n else 0 := by
  have hcounted : ∀ n, db.counted now key ((key₀, holder), n) = if key₀ = key then n else 0 := by
    intro n
    simp [counted, hlive]
  have hholders : (db.addSlots key₀ holder n).holders = db.holders := rfl
  rw [liveUsed_eq_sumOf, liveUsed_eq_sumOf, counted_congr hholders, addSlots, hset,
    sumOf_put, hcounted, hget]
  cases hget : db.slots.get? (key₀, holder) with
  | none =>
    rw [sumOf_erase_of_none hget]
    simp
  | some r =>
    obtain ⟨k, used⟩ := r
    obtain rfl : k = (key₀, holder) := key_of_get? hget
    rw [sumOf_erase_of_some hget, hcounted]
    simp only [map_some, getD_some]
    split <;> omega

lemma liveUsed_quotaAcquire (db : QuotaDb) (now : ℤ) (key₀ holder : String) (n : ℕ) (limit : ℤ)
    (key : String) :
    (db.quotaAcquire now key₀ holder n limit).2.liveUsed now key = db.liveUsed now key +
      if key₀ = key then max ((db.quotaAcquire now key₀ holder n limit).1.getD 0) 0 else 0 := by
  have hlock : ∀ key, (db.lockKey key₀).liveUsed now key = db.liveUsed now key :=
    fun key => liveUsed_congr rfl rfl
  simp only [quotaAcquire]
  split
  next hlive =>
    rw [getD_some]
    split
    next hpos =>
      rw [liveUsed_addSlots hlive, hlock, max_eq_left (le_of_lt hpos)]
    next hpos =>
      rw [hlock, max_eq_right (not_lt.mp hpos), ite_self, add_zero]
  · rw [hlock, getD_none, max_self, ite_self, add_zero]

lemma liveUsed_quotaAcquire_le {limit : ℤ} (h : db.liveUsed now key ≤ limit) (holder : String)
    (n : ℕ) : (db.quotaAcquire now key holder n limit).2.liveUsed now key ≤ limit := by
  have hlock : (db.lockKey key).liveUsed now key = db.liveUsed now key := liveUsed_congr rfl rfl
  rw [liveUsed_quotaAcquire, if_pos rfl]
  have hgrant : (db.quotaAcquire now key holder n limit).1.getD 0 ≤
      limit - db.liveUsed now key := by
    simp only [quotaAcquire]
    split
    · rw [getD_some, hlock, grant]
      omega
    · rw [getD_none]
      omega
  omega

end QuotaDb

/-! ### Runs -/

/-- Acquires of the key use the limit. -/
def QuotaStep.UsesLimit (key : String) (limit : ℤ) : QuotaStep → Prop
  | .acquire _ key' _ limit' => key' = key → limit' = limit
  | _ => True

namespace QuotaWorld

variable {w : QuotaWorld} {key : String} {limit : ℤ}

lemma next_sound (h : w.db.SlotsSound) (s : QuotaStep) : (w.next s).db.SlotsSound := by
  cases s with
  | tick ms => exact h
  | register holder ttl => exact h.registerQuotaHolder w.now holder ttl
  | renew holder ttl => exact h.renewQuotaHolder w.now holder ttl
  | acquire holder key' n limit' => exact h.quotaAcquire w.now key' holder n limit'
  | release holder counts => exact h.releaseQuotaSlots holder counts
  | delete holder => exact h.deleteHolders fun h _ => decide (h = holder)
  | reapHolders grace => exact h.deleteHolders fun _ expires => decide (expires < w.now - grace)
  | admitQuota key' n limit' window =>
    obtain ⟨hslots, hholders⟩ :=
      QuotaDb.SlotsSound.quotaAdmit_slots w.db w.now key' n limit' window
    refine ⟨fun r hr => h.nonneg r (hslots ▸ hr), fun r hr => ?_⟩
    simp only [next, hholders]
    exact h.held r (hslots ▸ hr)
  | reap picks limit' => exact (h.quotaReap w.now "" picks limit').1

lemma next_slots (h : w.db.SlotsSound) (hle : w.db.liveUsed w.now key ≤ limit) {s : QuotaStep}
    (hs : s.UsesLimit key limit) :
    (w.next s).db.liveUsed (w.next s).now key ≤ limit := by
  cases s with
  | tick ms => exact (h.liveUsed_tick ms).trans hle
  | register holder ttl => exact h.liveUsed_registerQuotaHolder.trans_le hle
  | renew holder ttl => exact h.liveUsed_renewQuotaHolder.trans hle
  | acquire holder key' n limit' =>
    by_cases hkey : key' = key
    · obtain rfl := hkey
      obtain rfl := hs rfl
      exact liveUsed_quotaAcquire_le hle holder n
    · simp only [next, liveUsed_quotaAcquire, if_neg hkey, add_zero]
      exact hle
  | release holder counts => exact (h.liveUsed_releaseQuotaSlots counts).trans hle
  | delete holder => exact (h.liveUsed_deleteHolders fun h _ => decide (h = holder)).trans hle
  | reapHolders grace =>
    exact (h.liveUsed_deleteHolders fun _ expires => decide (expires < w.now - grace)).trans hle
  | admitQuota key' n limit' window =>
    obtain ⟨hslots, hholders⟩ :=
      QuotaDb.SlotsSound.quotaAdmit_slots w.db w.now key' n limit' window
    exact (le_of_eq (liveUsed_congr hslots hholders)).trans hle
  | reap picks limit' => exact (h.quotaReap w.now key picks limit').2.trans hle

lemma run_sound (h : w.db.SlotsSound) (steps : List QuotaStep) : (w.run steps).db.SlotsSound := by
  induction steps generalizing w with
  | nil => exact h
  | cons s steps ih => exact ih (next_sound h s)

lemma run_slots {steps : List QuotaStep} (h : w.db.SlotsSound)
    (hle : w.db.liveUsed w.now key ≤ limit) (hsteps : ∀ s ∈ steps, s.UsesLimit key limit) :
    (w.run steps).db.liveUsed (w.run steps).now key ≤ limit := by
  induction steps generalizing w with
  | nil => exact hle
  | cons s steps ih =>
    refine ih (next_sound h s) (next_slots h hle (hsteps s mem_cons_self)) ?_
    exact fun s' hs' => hsteps s' (mem_cons_of_mem s hs')

/-- The step is not a registration of the holder that succeeds. -/
def Unregistered (w : QuotaWorld) (holder : String) (s : QuotaStep) : Prop :=
  ∀ ttl, s = .register holder ttl → (w.db.registerQuotaHolder w.now holder ttl).1 = false

lemma live_of_next {holder : String} {s : QuotaStep} (hs : w.Unregistered holder s)
    (h : (w.next s).db.live (w.next s).now holder = true) : w.db.live w.now holder = true := by
  cases s with
  | tick ms =>
    obtain ⟨e, he, hlt⟩ := live_iff.mp h
    refine live_iff.mpr ⟨e, he, ?_⟩
    simp only [next] at hlt
    omega
  | register holder' ttl =>
    simp only [next, registerQuotaHolder] at h
    split at h
    · exact h
    next hnew =>
      by_cases hne : holder = holder'
      · subst hne
        have hfail := hs ttl rfl
        simp only [registerQuotaHolder, if_neg hnew] at hfail
        cases hfail
      · rwa [live, hget_hset_of_ne _ _ hne] at h
  | renew holder' ttl =>
    simp only [next, renewQuotaHolder] at h
    split at h
    next hlive =>
      by_cases hne : holder = holder'
      · rwa [hne]
      · rwa [live, hget_hset_of_ne _ _ hne] at h
    · exact h
  | acquire holder' key n limit =>
    simp only [next, quotaAcquire] at h
    split at h
    · split at h <;> exact h
    · exact h
  | release holder' counts => exact h
  | delete holder' =>
    obtain ⟨e, he, hlt⟩ := live_iff.mp h
    simp only [next, deleteQuotaHolder, QuotaDb.SlotsSound.hget_deleteHolders] at he
    exact live_iff.mpr ⟨e, (filter_eq_some_iff.mp he).1, hlt⟩
  | reapHolders grace =>
    obtain ⟨e, he, hlt⟩ := live_iff.mp h
    simp only [next, reapQuotaHolders, QuotaDb.SlotsSound.hget_deleteHolders] at he
    exact live_iff.mpr ⟨e, (filter_eq_some_iff.mp he).1, hlt⟩
  | admitQuota key n limit window =>
    have hholders := (QuotaDb.SlotsSound.quotaAdmit_slots w.db w.now key n limit window).2
    rw [live, next, hholders] at h
    exact h
  | reap picks limit =>
    have hholders : (w.db.quotaReap w.now picks limit).2.holders = w.db.holders :=
      (QuotaDb.SlotsSound.reapWindow_slots w.now
        (picked w.db.windows
          (fun r => picks.expired r.1 && !(w.db.gone w.now r.1).isEmpty) limit) w.db).2
    rw [live, next, hholders] at h
    exact h

lemma run_not_live {holder : String} {steps : List QuotaStep} (h : w.db.live w.now holder = false)
    (hsteps : ∀ pre s post, steps = pre ++ s :: post → (w.run pre).Unregistered holder s) :
    (w.run steps).db.live (w.run steps).now holder = false := by
  induction steps generalizing w with
  | nil => exact h
  | cons s steps ih =>
    refine ih ?_ fun pre s' post hpost => ?_
    swap
    · exact hsteps (s :: pre) s' post (by rw [hpost, cons_append])
    rw [Bool.eq_false_iff] at h ⊢
    exact fun hlive => h (live_of_next (hsteps [] s steps rfl) hlive)

end QuotaWorld

/-- In every run in which all acquires of a key use the same limit: the slots of the key in use by
holders with live leases are at most the limit, no count is negative, and a holder whose lease is
not live never counts again, unless it is registered again: that succeeds only after the old holder
has been deleted, and then no slots of it are left. -/
theorem concurrency_quota_bounded {key : String} {limit : ℤ} (hlimit : 0 ≤ limit)
    {steps : List QuotaStep} (hsteps : ∀ s ∈ steps, s.UsesLimit key limit) :
    let w := initial.run steps
    w.db.liveUsed w.now key ≤ limit ∧
    (∀ r ∈ w.db.slots, 0 ≤ r.2) ∧
    (∀ holder more, w.db.live w.now holder = false →
      (∀ pre s post, more = pre ++ s :: post → (w.run pre).Unregistered holder s) →
      (w.run more).db.live (w.run more).now holder = false) ∧
    (∀ holder ttl key', (w.db.registerQuotaHolder w.now holder ttl).1 = true →
      hget w.db.slots (key', holder) = none) := by
  intro w
  have hsound := run_sound (w := .initial) QuotaDb.SlotsSound.initial steps
  have hle := run_slots (w := .initial) QuotaDb.SlotsSound.initial hlimit hsteps
  refine ⟨hle, hsound.nonneg, fun holder more h hmore => run_not_live h hmore, ?_⟩
  intro holder ttl key' hregistered
  refine hsound.no_slots ?_ key'
  unfold registerQuotaHolder at hregistered
  split at hregistered
  · cases hregistered
  next hnew =>
    exact not_isSome_iff_eq_none.mp hnew

/-- Two holders compete for three slots; the lease of the first expires. -/
def slotsRun : List QuotaStep :=
  [.register "h1" 1000, .acquire "h1" "k" 2 3, .tick 500, .register "h2" 1000,
    .acquire "h2" "k" 2 3, .tick 600, .acquire "h2" "k" 5 3]

/-- The second holder gets one slot, and two more once the first holder does not count. -/
theorem slotsRun_bounded :
    let w := initial.run slotsRun
    hget w.db.slots ("k", "h1") = some 2 ∧ hget w.db.slots ("k", "h2") = some 3 ∧
      w.db.liveUsed w.now "k" ≤ 3 := by
  intro w
  refine ⟨by decide +kernel, by decide +kernel, ?_⟩
  refine (concurrency_quota_bounded (by decide) ?_).1
  intro s hs
  simp only [slotsRun, mem_cons, not_mem_nil, or_false] at hs
  rcases hs with rfl | rfl | rfl | rfl | rfl | rfl | rfl <;> simp [QuotaStep.UsesLimit]

end LlmdAsync.SqlQueue
