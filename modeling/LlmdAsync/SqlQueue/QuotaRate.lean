import LlmdAsync.SqlQueue.Quota

/-!
# The rate quota is exact

`async_quota_windows` keeps a running count beside the rows of `async_quota_admits`, and both lose
what has left the window, at different times.  The invariant `RateExact` says that the count is the
sum of the remaining rows, and that the rows which are still in their window are the grants of the
history which are.  An admission then sees exactly what has been admitted in the window that ends
now.
-/

namespace LlmdAsync.SqlQueue

open List Option Hash QuotaDb QuotaWorld Admit

/-! ### Sums of admissions -/

/-- The requests admitted by the selected rows. -/
def admitTotal (l : List Admit) (p : Admit → Bool) : ℤ := ((l.filter p).map Admit.n).sum

/-- The requests of a window of a key admitted after `lo` and not after `hi`. -/
def admittedIn (l : List Admit) (key : String) (window lo hi : ℤ) : ℤ :=
  admitTotal l fun a => a.isOf key window && (decide (lo < a.atMs) && decide (a.atMs ≤ hi))

section Totals

variable {l : List Admit} {p q : Admit → Bool}

@[simp] lemma admitTotal_nil (p : Admit → Bool) : admitTotal [] p = 0 := rfl

@[simp] lemma admitTotal_append (l l' : List Admit) (p : Admit → Bool) :
    admitTotal (l ++ l') p = admitTotal l p + admitTotal l' p := by
  rw [admitTotal, filter_append, map_append, sum_append]
  rfl

lemma admitTotal_singleton (a : Admit) (p : Admit → Bool) :
    admitTotal [a] p = if p a then a.n else 0 := by
  by_cases h : p a = true <;> simp [admitTotal, h]

lemma admitTotal_congr (h : ∀ a ∈ l, p a = q a) : admitTotal l p = admitTotal l q := by
  rw [admitTotal, filter_congr h, admitTotal]

lemma admitTotal_filter (l : List Admit) (p q : Admit → Bool) :
    admitTotal (l.filter q) p = admitTotal l fun a => p a && q a := by
  rw [admitTotal, List.filter_filter, admitTotal]

lemma admitTotal_nonneg (hl : ∀ a ∈ l, 0 ≤ a.n) (p : Admit → Bool) : 0 ≤ admitTotal l p := by
  refine sum_nonneg ?_
  intro x hx
  obtain ⟨a, ha, rfl⟩ := mem_map.mp hx
  exact hl a (mem_filter.mp ha).1

lemma admitTotal_split (l : List Admit) (p q : Admit → Bool) :
    (admitTotal l fun a => p a && q a) + (admitTotal l fun a => p a && !q a) = admitTotal l p:= by
  induction l with
  | nil => rfl
  | cons a l ih =>
    simp only [admitTotal] at ih ⊢
    cases hp : p a <;> cases hq : q a <;> simp [hp, hq] <;> omega

lemma admitTotal_mono (hl : ∀ a ∈ l, 0 ≤ a.n) (h : ∀ a ∈ l, p a = true → q a = true) :
    admitTotal l p ≤ admitTotal l q := by
  have hpq : (admitTotal l fun a => q a && p a) = admitTotal l p := by
    refine admitTotal_congr fun a ha => ?_
    cases hp : p a with
    | false => rw [Bool.and_false]
    | true => rw [h a ha hp, Bool.and_true]
  have hsplit := admitTotal_split l q p
  have hrest := admitTotal_nonneg hl fun a => q a && !p a
  omega

end Totals

lemma Admit.isOf_iff {key : String} {window : ℤ} {a : Admit} :
    a.isOf key window = true ↔ a.key = key ∧ a.windowMs = window := by
  simp [isOf]

/-! ### The count of a window -/

namespace QuotaDb

variable {db : QuotaDb} {now : ℤ}

/-- What is known of the windows and their rows. -/
structure WindowsExact (db : QuotaDb) : Prop where
  /-- Rows admit requests. -/
  nonneg : ∀ a ∈ db.admits, 0 ≤ a.n
  /-- The count of a window is the sum of its rows. -/
  counted : ∀ key window, (Hash.hget db.windows (key, window)).getD 0 =
    admitTotal db.admits (Admit.isOf key window)

lemma WindowsExact.initial : initial.WindowsExact :=
  ⟨fun _ ha => absurd ha not_mem_nil, fun _ _ => rfl⟩

lemma admitTotal_dropGone (db : QuotaDb) (now : ℤ) (w : String × ℤ) (p : Admit → Bool) :
    admitTotal (db.dropGone now w) p =
      admitTotal db.admits fun a => p a && !(a.isOf w.1 w.2 && a.expired now) :=
  admitTotal_filter ..

lemma admitTotal_dropGone_of_ne {key : String} {window : ℤ} {w : String × ℤ}
    (hne : (key, window) ≠ w) :
    admitTotal (db.dropGone now w) (isOf key window) = admitTotal db.admits (isOf key window):= by
  rw [admitTotal_dropGone]
  refine admitTotal_congr fun a _ => ?_
  cases hw : a.isOf w.1 w.2 with
  | false => simp
  | true =>
    have hfalse : a.isOf key window = false := by
      rw [Bool.eq_false_iff]
      intro h
      obtain ⟨hk, hwin⟩ := isOf_iff.mp h
      obtain ⟨hk', hwin'⟩ := isOf_iff.mp hw
      exact hne (Prod.ext (hk ▸ hk') (hwin ▸ hwin'))
    rw [hfalse, Bool.false_and]

lemma admitTotal_gone_add (db : QuotaDb) (now : ℤ) (key : String) (window : ℤ) :
    ((db.gone now (key, window)).map n).sum +
        admitTotal (db.dropGone now (key, window)) (isOf key window) =
      admitTotal db.admits (isOf key window) := by
  rw [admitTotal_dropGone, ← admitTotal_split db.admits (isOf key window)
    fun a => a.expired now]
  congr 1
  refine admitTotal_congr fun a _ => ?_
  cases a.isOf key window <;> rfl

/-- What `async_quota_admit` finds in use. -/
def usedIn (db : QuotaDb) (now : ℤ) (key : String) (window : ℤ) : ℤ :=
  admitTotal (db.dropGone now (key, window)) (Admit.isOf key window)

lemma lockWindow_windows (db : QuotaDb) (w w' : String × ℤ) :
    (hget (db.lockWindow w).windows w').getD 0 = (hget db.windows w').getD 0 := by
  unfold lockWindow
  split
  · rfl
  next hnew =>
    rw [hget_hset]
    split
    next hw =>
      rw [hw, not_isSome_iff_eq_none.mp hnew]
      rfl
    · rfl

lemma lockWindow_admits (db : QuotaDb) (w : String × ℤ) : (db.lockWindow w).admits = db.admits := by
  unfold lockWindow
  split <;> rfl

lemma WindowsExact.quotaAdmit_spec (h : db.WindowsExact) (now : ℤ) (key : String) (n : ℕ)
    (limit window : ℤ) :
    let granted := grant n limit (db.usedIn now key window)
    (db.quotaAdmit now key n limit window).1 = granted ∧
    (db.quotaAdmit now key n limit window).2.admits =
      db.dropGone now (key, window) ++ QuotaWorld.granted key window now granted ∧
    ∀ w, (hget (db.quotaAdmit now key n limit window).2.windows w).getD 0 =
      if w = (key, window) then db.usedIn now key window + granted
      else (hget db.windows w).getD 0 := by
  have hgone :
      (db.lockWindow (key, window)).gone now (key, window) = db.gone now (key, window) := by
    rw [gone, lockWindow_admits, gone]
  have hdrop : (db.lockWindow (key, window)).dropGone now (key, window) =
      db.dropGone now (key, window) := by
    rw [dropGone, lockWindow_admits, dropGone]
  have hsum := db.admitTotal_gone_add now key window
  have hused : (hget db.windows (key, window)).getD 0 -
      ((db.gone now (key, window)).map Admit.n).sum = db.usedIn now key window := by
    rw [h.counted, usedIn]
    omega
  intro granted
  simp only [quotaAdmit, lockWindow_windows, hgone, hdrop, hused]
  refine ⟨rfl, rfl, fun w => ?_⟩
  split
  · rw [hget_hset]
    split
    · rfl
    · exact db.lockWindow_windows (key, window) w
  next hsame =>
    rw [lockWindow_windows]
    split
    next hw =>
      rw [hw]
      -- Nothing was granted and nothing had left the window, so the count is what it was.
      have hnonneg : 0 ≤ ((db.gone now (key, window)).map Admit.n).sum :=
        admitTotal_nonneg h.nonneg _
      have hgrant : 0 ≤ granted := by
        simp only [granted, grant]
        omega
      omega
    · rfl

lemma grant_nonneg (n : ℕ) (limit used : ℤ) : 0 ≤ grant n limit used := by
  unfold grant
  omega

lemma admitTotal_granted {key : String} {window granted : ℤ} (hgranted : 0 ≤ granted)
    (p : Admit → Bool) :
    admitTotal (QuotaWorld.granted key window now granted) p =
      if p ⟨key, window, now, granted⟩ then granted else 0 := by
  unfold QuotaWorld.granted
  split
  · exact admitTotal_singleton ..
  · have hzero : granted = 0 := by omega
    rw [hzero, ite_self, admitTotal_nil]

lemma WindowsExact.quotaAdmit (h : db.WindowsExact) (now : ℤ) (key : String) (n : ℕ)
    (limit window : ℤ) : (db.quotaAdmit now key n limit window).2.WindowsExact := by
  obtain ⟨-, hadmits, hwindows⟩ := h.quotaAdmit_spec now key n limit window
  have hgrant := grant_nonneg n limit (db.usedIn now key window)
  refine ⟨fun a ha => ?_, fun key' window' => ?_⟩
  · rw [hadmits, mem_append] at ha
    rcases ha with hold | hnew
    · exact h.nonneg a (mem_filter.mp hold).1
    · unfold granted at hnew
      split at hnew
      · cases mem_singleton.mp hnew
        exact hgrant
      · cases hnew
  · rw [hwindows, hadmits, admitTotal_append, admitTotal_granted hgrant]
    split
    next hw =>
      cases hw
      have hself : isOf key window
          ⟨key, window, now, grant n limit (db.usedIn now key window)⟩ = true :=
        isOf_iff.mpr ⟨rfl, rfl⟩
      rw [if_pos hself]
      rfl
    next hne =>
      have hother : ¬ isOf key' window'
          ⟨key, window, now, grant n limit (db.usedIn now key window)⟩ = true := by
        rw [isOf_iff]
        rintro ⟨rfl, rfl⟩
        exact hne rfl
      rw [if_neg hother, add_zero, admitTotal_dropGone_of_ne hne]
      exact h.counted key' window'

lemma WindowsExact.reapWindow (h : db.WindowsExact) (now : ℤ) (w : String × ℤ) :
    (db.reapWindow now w).WindowsExact := by
  refine ⟨fun a ha => h.nonneg a (mem_filter.mp ha).1, fun key window => ?_⟩
  by_cases hw : (key, window) = w
  · subst hw
    have hsum := db.admitTotal_gone_add now key window
    have hcounted := h.counted key window
    simp only [QuotaDb.reapWindow]
    cases hused : hget db.windows (key, window) with
    | none =>
      -- There are no rows of a window that is not there.
      rw [hused, getD_none] at hcounted
      have hgone : 0 ≤ ((db.gone now (key, window)).map n).sum :=
        admitTotal_nonneg h.nonneg _
      have hleft : 0 ≤ admitTotal (db.dropGone now (key, window)) (isOf key window) :=
        admitTotal_nonneg (fun a ha => h.nonneg a (mem_filter.mp ha).1) _
      simp only [hused, getD_none]
      omega
    | some used =>
      rw [hused, getD_some] at hcounted
      simp only [hget_hset_self, getD_some]
      omega
  · have hsame : (hget (db.reapWindow now w).windows (key, window)).getD 0 =
        (hget db.windows (key, window)).getD 0 := by
      simp only [QuotaDb.reapWindow]
      split
      · rw [hget_hset_of_ne _ _ hw]
      · rfl
    rw [hsame, h.counted, QuotaDb.reapWindow, admitTotal_dropGone_of_ne hw]

lemma WindowsExact.reapIdle (h : db.WindowsExact) (pick : String × ℤ → Bool) (limit : ℕ) :
    (db.reapIdle pick limit).2.WindowsExact := by
  refine ⟨h.nonneg, fun key window => ?_⟩
  simp only [QuotaDb.reapIdle, hget_foldl_hdel]
  rw [← h.counted]
  split
  next hpicked =>
    obtain ⟨⟨w, used⟩, hr, rfl⟩ := mem_map.mp hpicked
    obtain ⟨hrow, htest⟩ := mem_filter.mp (mem_of_mem_take hr)
    simp only [Bool.and_eq_true, decide_eq_true_eq] at htest
    rw [mem_rows_iff.mp hrow, htest.1.2]
    rfl
  · rfl

lemma WindowsExact.reapExpired (h : db.WindowsExact) (now : ℤ) (pick : String × ℤ → Bool)
    (limit : ℕ) : (db.reapExpired now pick limit).2.WindowsExact := by
  simp only [QuotaDb.reapExpired]
  generalize picked db.windows (fun r => pick r.1 && !(db.gone now r.1).isEmpty) limit = ws
  induction ws generalizing db with
  | nil => exact h
  | cons w ws ih => exact ih (h.reapWindow now w)

lemma WindowsExact.quotaReap (h : db.WindowsExact) (now : ℤ) (picks : ReapPicks) (limit : ℕ) :
    (db.quotaReap now picks limit).2.WindowsExact := by
  have hidle := (h.reapExpired now picks.expired limit).reapIdle picks.idle limit
  exact ⟨hidle.nonneg, hidle.counted⟩

/-! ### The rows in their window -/

lemma admitTotal_dropGone_later (db : QuotaDb) (now : ℤ) (w : String × ℤ) {key : String}
    {window c : ℤ} (hc : now - window ≤ c) :
    (admitTotal (db.dropGone now w) fun a => a.isOf key window && decide (c < a.atMs)) =
      admitTotal db.admits fun a => a.isOf key window && decide (c < a.atMs) := by
  rw [admitTotal_dropGone]
  refine admitTotal_congr fun a _ => ?_
  cases hsel : a.isOf key window && decide (c < a.atMs) with
  | false => rfl
  | true =>
    simp only [Bool.and_eq_true, decide_eq_true_eq] at hsel
    obtain ⟨-, hwin⟩ := isOf_iff.mp hsel.1
    have hin : a.expired now = false := by
      rw [Bool.eq_false_iff, expired, ne_eq, decide_eq_true_eq, hwin]
      omega
    rw [hin, Bool.and_false]
    rfl

lemma admitTotal_quotaReap_later (db : QuotaDb) (now : ℤ) (picks : ReapPicks) (limit : ℕ)
    {key : String} {window c : ℤ} (hc : now - window ≤ c) :
    (admitTotal (db.quotaReap now picks limit).2.admits
        fun a => a.isOf key window && decide (c < a.atMs)) =
      admitTotal db.admits fun a => a.isOf key window && decide (c < a.atMs) := by
  simp only [quotaReap, reapExpired, reapIdle, reapUnused, reapUnnamed]
  generalize picked db.windows (fun r => picks.expired r.1 && !(db.gone now r.1).isEmpty) limit = ws
  induction ws generalizing db with
  | nil => rfl
  | cons w ws ih =>
    exact (ih (reapWindow now db w)).trans (admitTotal_dropGone_later db now w hc)

end QuotaDb

/-! ### Runs -/

/-- Admissions of the window of the key use the limit. -/
def QuotaStep.AdmitsUpTo (key : String) (window limit : ℤ) : QuotaStep → Prop
  | .admitQuota key' _ limit' window' => key' = key → window' = window → limit' = limit
  | _ => True

/-- What is known of a run. -/
structure RateExact (key : String) (window limit : ℤ) (w : QuotaWorld) : Prop where
  /-- Counts are sums of rows. -/
  windows : w.db.WindowsExact
  /-- Grants were made before now. -/
  past : ∀ a ∈ w.admitted, a.atMs ≤ w.now
  /-- Grants are not negative. -/
  nonneg : ∀ a ∈ w.admitted, 0 ≤ a.n
  /-- Grants that are still in the window have their rows. -/
  kept : ∀ c, w.now - window ≤ c →
    (admitTotal w.db.admits fun a => a.isOf key window && decide (c < a.atMs)) =
      admitTotal w.admitted fun a => a.isOf key window && decide (c < a.atMs)
  /-- No window holds more than the limit. -/
  bounded : ∀ t, admittedIn w.admitted key window (t - window) t ≤ limit

namespace RateExact

variable {key : String} {window limit : ℤ} {w : QuotaWorld}

lemma initial (hlimit : 0 ≤ limit) : RateExact key window limit .initial where
  windows := QuotaDb.WindowsExact.initial
  past _ ha := absurd ha not_mem_nil
  nonneg _ ha := absurd ha not_mem_nil
  kept _ _ := rfl
  bounded _ := hlimit

lemma usedIn_eq (h : RateExact key window limit w) :
    w.db.usedIn w.now key window = admittedIn w.admitted key window (w.now - window) w.now := by
  have hrows : w.db.usedIn w.now key window = admitTotal w.db.admits fun a =>
      a.isOf key window && decide (w.now - window < a.atMs) := by
    rw [usedIn, admitTotal_dropGone]
    refine admitTotal_congr fun a _ => ?_
    cases hof : a.isOf key window with
    | false => rfl
    | true =>
      obtain ⟨-, hwin⟩ := isOf_iff.mp hof
      rw [Bool.true_and, Bool.true_and, Bool.true_and, expired, hwin, ← decide_not]
      exact decide_eq_decide.mpr not_le
  rw [hrows, h.kept _ (le_refl _), admittedIn]
  refine admitTotal_congr fun a ha => ?_
  rw [decide_eq_true (h.past a ha), Bool.and_true]

lemma usedIn_le (h : RateExact key window limit w) : w.db.usedIn w.now key window ≤ limit := by
  rw [h.usedIn_eq]
  exact h.bounded w.now

lemma admittedIn_granted {key' : String} {window' n : ℤ} (hn : 0 ≤ n) (l : List Admit)
    (now lo hi : ℤ) :
    admittedIn (l ++ granted key' window' now n) key window lo hi =
      admittedIn l key window lo hi +
        if (key' = key ∧ window' = window) ∧ lo < now ∧ now ≤ hi then n else 0 := by
  rw [admittedIn, admitTotal_append, admitTotal_granted hn]
  simp [admittedIn, isOf]

lemma bounded_admitQuota (h : RateExact key window limit w) (n : ℕ) (t : ℤ) :
    admittedIn (w.admitted ++ granted key window w.now
      (grant n limit (w.db.usedIn w.now key window))) key window (t - window) t ≤ limit:= by
  have hgrant := grant_nonneg n limit (w.db.usedIn w.now key window)
  have hle := h.usedIn_le
  rw [admittedIn_granted hgrant]
  split
  next hin =>
    -- Every grant of this interval is in the window that ends now.
    have hmono : admittedIn w.admitted key window (t - window) t ≤
        w.db.usedIn w.now key window := by
      rw [h.usedIn_eq]
      refine admitTotal_mono h.nonneg fun a ha hsel => ?_
      have := h.past a ha
      simp only [Bool.and_eq_true, decide_eq_true_eq] at hsel ⊢
      exact ⟨hsel.1, by omega, by omega⟩
    unfold grant at hgrant ⊢
    omega
  · have := h.bounded t
    omega

lemma admitQuota (h : RateExact key window limit w) {key' : String} {n : ℕ} {limit' window' : ℤ}
    (hlimit : key' = key → window' = window → limit' = limit) :
    RateExact key window limit (w.next (.admitQuota key' n limit' window')) := by
  obtain ⟨hgranted, hadmits, -⟩ := h.windows.quotaAdmit_spec w.now key' n limit' window'
  have hgrant := grant_nonneg n limit' (w.db.usedIn w.now key' window')
  refine ⟨h.windows.quotaAdmit .., ?_, ?_, ?_, ?_⟩
  · intro a ha
    simp only [QuotaWorld.next, mem_append, granted] at ha
    rcases ha with hold | hnew
    · exact h.past a hold
    · split at hnew
      · cases mem_singleton.mp hnew
        exact le_refl _
      · cases hnew
  · intro a ha
    simp only [QuotaWorld.next, mem_append, granted, hgranted] at ha
    rcases ha with hold | hnew
    · exact h.nonneg a hold
    · split at hnew
      · cases mem_singleton.mp hnew
        exact hgrant
      · cases hnew
  · intro c hc
    change w.now - window ≤ c at hc
    simp only [QuotaWorld.next, hadmits, hgranted, admitTotal_append]
    rw [admitTotal_dropGone_later _ _ _ hc, h.kept c hc]
  · intro t
    simp only [QuotaWorld.next, hgranted]
    by_cases hsame : key' = key ∧ window' = window
    · obtain ⟨rfl, rfl⟩ := hsame
      obtain rfl := hlimit rfl rfl
      exact h.bounded_admitQuota n t
    · rw [admittedIn_granted hgrant, if_neg fun hin => hsame hin.1, add_zero]
      exact h.bounded t

lemma frame (h : RateExact key window limit w) {w' : QuotaWorld}
    (hwindows : w'.db.windows = w.db.windows) (hadmits : w'.db.admits = w.db.admits)
    (hnow : w'.now = w.now) (hadmitted : w'.admitted = w.admitted) :
    RateExact key window limit w' := by
  refine ⟨⟨?_, ?_⟩, ?_, ?_, ?_, ?_⟩
  · rw [hadmits]
    exact h.windows.nonneg
  · rw [hadmits, hwindows]
    exact h.windows.counted
  · rw [hadmitted, hnow]
    exact h.past
  · rw [hadmitted]
    exact h.nonneg
  · rw [hadmits, hadmitted, hnow]
    exact h.kept
  · rw [hadmitted]
    exact h.bounded

lemma next (h : RateExact key window limit w) {s : QuotaStep} (hs : s.AdmitsUpTo key window limit) :
    RateExact key window limit (w.next s) := by
  cases s with
  | tick ms =>
    refine ⟨h.windows, fun a ha => ?_, h.nonneg, fun c hc => h.kept c ?_, h.bounded⟩
    · have := h.past a ha
      simp only [QuotaWorld.next]
      omega
    · simp only [QuotaWorld.next] at hc
      omega
  | register holder ttl =>
    simp only [QuotaWorld.next, registerQuotaHolder]
    split <;> exact h.frame rfl rfl rfl rfl
  | renew holder ttl =>
    simp only [QuotaWorld.next, renewQuotaHolder]
    split <;> exact h.frame rfl rfl rfl rfl
  | acquire holder key' n limit' =>
    simp only [QuotaWorld.next, quotaAcquire]
    split
    · split <;> exact h.frame rfl rfl rfl rfl
    · exact h.frame rfl rfl rfl rfl
  | release holder counts | delete holder | reapHolders grace => exact h.frame rfl rfl rfl rfl
  | admitQuota key' n limit' window' => exact h.admitQuota hs
  | reap picks limit' =>
    refine ⟨h.windows.quotaReap w.now picks limit', h.past, h.nonneg, fun c hc => ?_, h.bounded⟩
    exact (w.db.admitTotal_quotaReap_later w.now picks limit' hc).trans (h.kept c hc)

lemma run (h : RateExact key window limit w) {steps : List QuotaStep}
    (hsteps : ∀ s ∈ steps, s.AdmitsUpTo key window limit) :
    RateExact key window limit (w.run steps) := by
  induction steps generalizing w with
  | nil => exact h
  | cons s steps ih =>
    exact ih (h.next (hsteps s mem_cons_self)) fun s' hs' =>
      hsteps s' (mem_cons_of_mem s hs')

end RateExact

/-- In every run in which all admissions of a window of a key use the same limit: the count of the
window is the sum of its remaining rows, no interval of the length of the window holds more than the
limit, and, for a window of at least a millisecond, an admission that grants less than it is asked
for leaves exactly the limit in the window that ends now. -/
theorem rate_quota_exact {key : String} {window : ℤ} {limit : ℕ} {steps : List QuotaStep}
    (hsteps : ∀ s ∈ steps, s.AdmitsUpTo key window limit) :
    let w := initial.run steps
    (hget w.db.windows (key, window)).getD 0 =
      ((w.db.admits.filter (isOf key window)).map n).sum ∧
    (∀ t, admittedIn w.admitted key window (t - window) t ≤ limit) ∧
    (0 < window → ∀ n : ℕ, (w.db.quotaAdmit w.now key n limit window).1 < n →
      admittedIn (w.next (.admitQuota key n limit window)).admitted key window (w.now - window)
        w.now = limit) := by
  intro w
  have h : RateExact key window limit w := (RateExact.initial (Int.natCast_nonneg limit)).run hsteps
  refine ⟨h.windows.counted key window, h.bounded, fun hwindow n hless => ?_⟩
  obtain ⟨hgranted, -, -⟩ := h.windows.quotaAdmit_spec w.now key n limit window
  have hgrant := grant_nonneg n limit (w.db.usedIn w.now key window)
  have hle := h.usedIn_le
  simp only [QuotaWorld.next, hgranted] at hless ⊢
  rw [RateExact.admittedIn_granted hgrant, ← h.usedIn_eq, if_pos ⟨⟨rfl, rfl⟩, by omega, le_refl _⟩]
  unfold grant at hless ⊢
  omega

/-- Three of five requests are admitted, one more when the first two have left the window. -/
def rateRun : List QuotaStep :=
  [.admitQuota "k" 2 3 1000, .tick 600, .admitQuota "k" 3 3 1000, .tick 500]

/-- The next admission of three requests grants two, and the window is full. -/
theorem rateRun_exact :
    let w := initial.run rateRun
    (w.db.quotaAdmit w.now "k" 3 3 1000).1 = 2 ∧
      admittedIn (w.next (.admitQuota "k" 3 3 1000)).admitted "k" 1000 (w.now - 1000) w.now =
        3 := by
  intro w
  have hgranted : (w.db.quotaAdmit w.now "k" 3 3 1000).1 = 2 := by decide +kernel
  refine ⟨hgranted, (@rate_quota_exact "k" 1000 3 rateRun ?_).2.2 (by decide) 3 ?_⟩
  · intro s hs
    simp only [rateRun, mem_cons, not_mem_nil, or_false] at hs
    rcases hs with rfl | rfl | rfl | rfl <;> simp [QuotaStep.AdmitsUpTo]
  · rw [show (w.db.quotaAdmit w.now "k" 3 ((3 : ℕ) : ℤ) 1000).1 = 2 from hgranted]
    decide

/-- A window of half a millisecond is passed as `0`: what is admitted has left it at once, so that
it never fills up, and admissions at one time are granted again and again. -/
theorem short_window_not_exact :
    let w := QuotaWorld.initial
    let window := milliseconds 500000
    let w' := w.next (.admitQuota "k" 2 1 window)
    (w.db.quotaAdmit w.now "k" 2 1 window).1 = 1 ∧
      admittedIn w'.admitted "k" window (w.now - window) w.now = 0 ∧
      (w'.db.quotaAdmit w'.now "k" 2 1 window).1 = 1 := by
  decide +kernel

end LlmdAsync.SqlQueue
