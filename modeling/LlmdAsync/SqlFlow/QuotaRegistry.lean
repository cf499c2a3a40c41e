import LlmdAsync.SqlFlow.QuotaSystem

/-!
# Holders of the quota store

What actions do to holders, queued releases and the database.  `Registry.Did` says it once for all
actions, and everything else about them is read off it.  Many actions do not matter much: they are
`Mild`, which means that holders may have been retired or found to be gone.
-/

namespace LlmdAsync.SqlFlow.QuotaStore

open SqlQueue Option Function

variable {ttl : ℤ} {c : Choice} {a : Action} {r : a.Reply}

namespace Registry

variable {s s' : Registry}

/-- `known` of a holder. -/
def known (s : Registry) (h : String) : ℤ := ((s.heap h).map Holder.known).getD 0

def queued (s : Registry) (h : String) : ℕ := s.pending.countP fun p => p.1 = h

/-- The queued releases of a holder and a key. -/
def queuedAt (s : Registry) (h key : String) : ℕ := s.pending.countP fun p => p.1 = h ∧ p.2 = key

def live (s : Registry) (h : String) : Bool := s.world.db.live s.world.now h

/-- Nothing has changed except that holders may have been retired or found to be gone. -/
structure Mild (s s' : Registry) : Prop where
  heap : ∀ h, (s.heap h = none ∧ s'.heap h = none) ∨ ∃ y y', s.heap h = some y ∧
    s'.heap h = some y' ∧ y'.known = y.known ∧ y'.deleting = y.deleting ∧
    (y.retired = true → y'.retired = true) ∧ (s'.current = some h → y'.retired = y.retired)
  current : ∀ h, s'.current = some h → s.current = some h
  pending : s'.pending = s.pending
  world : s'.world = s.world
  names : s'.names = s.names

lemma Mild.refl (s : Registry) : s.Mild s where
  heap h := by
    cases hh : s.heap h with
    | none => exact .inl ⟨rfl, rfl⟩
    | some y => exact .inr ⟨y, y, rfl, rfl, rfl, rfl, id, fun _ => rfl⟩
  current _ := id
  pending := rfl
  world := rfl
  names := rfl

lemma mild_retire (s : Registry) (h₀ : String) : s.Mild (s.retire h₀) where
  heap h := by
    rcases eq_or_ne h h₀ with rfl | hne
    · cases hh : s.heap h with
      | none => exact .inl ⟨rfl, by simp [retire, modify, vacate, hh]⟩
      | some y =>
        refine .inr ⟨y, { y with retired := true }, rfl, ?_, rfl, rfl, fun _ => rfl, ?_⟩
        · simp [retire, modify, vacate, hh]
        · intro hc
          simp only [retire, vacate] at hc
          split at hc
          · cases hc
          next hcurrent =>
            exact absurd hc hcurrent
    · have hsame : (s.retire h₀).heap h = s.heap h := by simp [retire, modify, vacate, hne]
      rw [hsame]
      cases hh : s.heap h with
      | none => exact .inl ⟨rfl, rfl⟩
      | some y => exact .inr ⟨y, y, rfl, rfl, rfl, rfl, id, fun _ => rfl⟩
  current h hc := by
    simp only [retire, vacate] at hc
    split at hc
    · cases hc
    · exact hc
  pending := rfl
  world := rfl
  names := rfl

lemma mild_modify (s : Registry) (h₀ : String) {f : Holder → Holder}
    (hf : ∀ y, (f y).known = y.known ∧ (f y).deleting = y.deleting ∧ (f y).retired = y.retired) :
    s.Mild (s.modify h₀ f) where
  heap h := by
    rcases eq_or_ne h h₀ with rfl | hne
    · cases hh : s.heap h with
      | none => exact .inl ⟨rfl, by simp [modify, hh]⟩
      | some y =>
        refine .inr ⟨y, f y, rfl, by simp [modify, hh], (hf y).1, (hf y).2.1, ?_, ?_⟩
        · exact fun hy => (hf y).2.2.trans hy
        · exact fun _ => (hf y).2.2
    · have hsame : (s.modify h₀ f).heap h = s.heap h := by simp [modify, hne]
      rw [hsame]
      cases hh : s.heap h with
      | none => exact .inl ⟨rfl, rfl⟩
      | some y => exact .inr ⟨y, y, rfl, rfl, rfl, rfl, id, fun _ => rfl⟩
  current _ := id
  pending := rfl
  world := rfl
  names := rfl

lemma Mild.trans {s₁ s₂ s₃ : Registry} (h : s₁.Mild s₂) (h' : s₂.Mild s₃) : s₁.Mild s₃ where
  heap h₀ := by
    rcases h.heap h₀ with ⟨hn, hn'⟩ | ⟨y, y', hy, hy', hknown, hdel, hret, hcur⟩
    · rcases h'.heap h₀ with ⟨-, hn''⟩ | ⟨z, z', hz, -⟩
      · exact .inl ⟨hn, hn''⟩
      · rw [hn'] at hz
        cases hz
    · rcases h'.heap h₀ with ⟨hn', -⟩ | ⟨z, z', hz, hz', hknown', hdel', hret', hcur'⟩
      · rw [hn'] at hy'
        cases hy'
      · obtain rfl : y' = z := some.inj (hy'.symm.trans hz)
        refine .inr ⟨y, z', hy, hz', hknown'.trans hknown, hdel'.trans hdel, ?_, ?_⟩
        · exact fun hy => hret' (hret hy)
        · exact fun hc => (hcur' hc).trans (hcur (h'.current h₀ hc))
  current h₀ hc := h.current h₀ (h'.current h₀ hc)
  pending := h'.pending.trans h.pending
  world := h'.world.trans h.world
  names := h'.names.trans h.names

lemma mild_remove (s : Registry) (h : String) : s.Mild (s.remove h) := by
  have hmod := s.mild_modify h (f := fun y => { y with gone := true }) fun _ => ⟨rfl, rfl, rfl⟩
  exact ⟨hmod.heap, hmod.current, hmod.pending, hmod.world, hmod.names⟩

lemma mild_renewed (s : Registry) (ttl : ℤ) (h : String) (started : ℤ)
    (live : Except String Bool) : s.Mild (s.renewed ttl h started live) := by
  unfold renewed
  split
  · exact s.mild_modify h fun _ => ⟨rfl, rfl, rfl⟩
  · exact (s.mild_retire h).trans ((s.retire h).mild_remove h)
  · split
    · exact s.mild_retire h
    · exact .refl s

end Registry

/-- Actions that retire a holder, remove it or change nothing. -/
def Action.mild : Action → Bool
  | .markUsed => true
  | .lockRegister => true
  | .unlockRegister => true
  | .now => true
  | .retire _ => true
  | .markGone _ => true
  | .isUsed => true
  | .listHolders => true
  | .isDeleting _ => true
  | .renewed .. => true
  | .idleHolders => true
  | _ => false

/-- Statements of the heartbeat and of `delete`. -/
def Action.upkeep (ttl : ℤ) (picks : QuotaDb.ReapPicks) : Action → Option QuotaStep
  | .renewQuotaHolder h => some (.renew h (milliseconds ttl))
  | .deleteQuotaHolder h => some (.delete h)
  | .reapQuotaHolders => some (.reapHolders (milliseconds ttl))
  | .reapQuota => some (.reap picks quotaReapBatch)
  | _ => none

namespace Registry

variable {s s' : Registry}

/-- A statement has been run, and has or has not taken effect. -/
def Ran (s : Registry) (step : QuotaStep) (s' : Registry) : Prop :=
  s' = s ∨ s' = { s with world := s.world.next step }

/-- What an action has done to the registry. -/
inductive Did (ttl : ℤ) (s : Registry) : (a : Action) → a.Reply → Registry → Prop
  | mild {a : Action} {r : a.Reply} {s' : Registry} (ha : a.mild = true) (h : s.Mild s') :
    Did ttl s a r s'
  | upkeep {a : Action} {r : a.Reply} (picks : QuotaDb.ReapPicks) {step : QuotaStep}
    {s' : Registry} (ha : a.upkeep ttl picks = some step) (h : s.Ran step s') : Did ttl s a r s'
  | noCurrent : Did ttl s .countCurrent none s
  | current (h : String) (hh : s.current = some h) :
    Did ttl s .countCurrent (some h) (s.modify h fun y => { y with known := y.known + 1 })
  | noName (e : String) : Did ttl s .newOwner (.error e) s
  | name (name : String) (h : name ∉ s.names) :
    Did ttl s .newOwner (.ok name) { s with names := name :: s.names }
  | inserted (name : String) (renewed : ℤ) :
    Did ttl s (.insertHolder name renewed) ()
      { s with
        heap := Function.update s.heap name (some ⟨1, renewed, false, false, false⟩)
        current := some name
        holders := name :: s.holders }
  | settled (h : String) (n : ℤ) (why : Settled) (y : Holder) (hy : s.heap h = some y)
    (drop : Bool) (hdrop : drop = true → y.retired = true ∧ y.known - n = 0) :
    Did ttl s (.settle h n why) drop
      (s.modify h fun y => { y with known := y.known - n, deleting := y.deleting || drop })
  | registered (name : String) (r : Except String Unit) {s' : Registry}
    (h : s.Ran (.register name (milliseconds ttl)) s') : Did ttl s (.registerQuotaHolder name) r s'
  | acquired (h key : String) (batch : List ℕ) (limit : ℤ) (granted : Fin (batch.length + 1))
    (hg : (s.world.db.quotaAcquire s.world.now key h batch.length limit).1 = some ↑granted.val) :
    Did ttl s (.acquireQuotaSlots h key batch limit) (.ok granted)
      { s with world := s.world.next (.acquire h key batch.length limit) }
  | notAcquired (h key : String) (batch : List ℕ) (limit : ℤ) (e : AcquireError) {s' : Registry}
    (hs : s.Ran (.acquire h key batch.length limit) s') :
    Did ttl s (.acquireQuotaSlots h key batch limit) (.error e) s'
  | sent (h : String) (counts : List (String × ℕ)) (r : Except String Unit) {s' : Registry}
    (hs : s.Ran (.release h counts) s') : Did ttl s (.releaseQuotaSlots h counts) r s'
  | queued (h key : String) (w : ℕ) (by_ : Releaser) (start : Bool) :
    Did ttl s (.queueRelease h key w by_) start
      { s with pending := (h, key) ::ₘ s.pending, releasing := true }
  | flushed : Did ttl s .takePending [] { s with releasing := false }
  | taken (rows : List (String × List (String × ℕ))) (h : Lists rows s.pending) :
    Did ttl s .takePending rows { s with pending := 0 }

lemma ran_attempt {ε α : Type} (s : Registry) (o : Outcome) (fail : String → ε) (step : QuotaStep)
    (answer : Except ε α) : s.Ran step (s.attempt o fail step answer).2 := by
  unfold attempt
  split
  · exact .inr rfl
  · exact .inr rfl
  · exact .inl rfl

lemma did_acquire (s : Registry) (o : Outcome) (h key : String) (batch : List ℕ) (limit : ℤ) :
    Did ttl s (.acquireQuotaSlots h key batch limit)
      (s.attempt o .failed (.acquire h key batch.length limit)
        (s.acquireAnswer h key batch limit)).1
      (s.attempt o .failed (.acquire h key batch.length limit)
        (s.acquireAnswer h key batch limit)).2 := by
  cases o with
  | failed e took =>
    have hran := ran_attempt s (.failed e took) AcquireError.failed
      (.acquire h key batch.length limit) (s.acquireAnswer h key batch limit)
    cases took <;> exact .notAcquired h key batch limit (.failed e) hran
  | success =>
    simp only [attempt, acquireAnswer]
    cases hg : (s.world.db.quotaAcquire s.world.now key h batch.length limit).1 with
    | none => exact .notAcquired h key batch limit .lapsed (.inr rfl)
    | some granted =>
      obtain ⟨hnonneg, hle⟩ := QuotaDb.quotaAcquire_bounds hg
      refine .acquired h key batch limit _ ?_
      rw [hg]
      congr 1
      show granted = ((min granted.toNat batch.length : ℕ) : ℤ)
      omega

lemma step_did (he : s.step ttl a c = some (r, s')) : Did ttl s a r s' := by
  cases a with
  | markUsed | unlockRegister =>
    cases he
    exact .mild rfl ⟨(Mild.refl s).heap, fun _ => id, rfl, rfl, rfl⟩
  | lockRegister =>
    simp only [step] at he
    split at he <;> cases he
    exact .mild rfl ⟨(Mild.refl s).heap, fun _ => id, rfl, rfl, rfl⟩
  | now | isUsed | isDeleting h =>
    cases he
    exact .mild rfl (.refl s)
  | listHolders | idleHolders =>
    simp only [step] at he
    split at he <;> cases he
    exact .mild rfl (.refl s)
  | retire h =>
    cases he
    exact .mild rfl (s.mild_retire h)
  | markGone h =>
    cases he
    exact .mild rfl (s.mild_remove h)
  | renewed h started live =>
    cases he
    exact .mild rfl (s.mild_renewed ttl h started live)
  | countCurrent =>
    simp only [step] at he
    split at he
    · cases he
      exact .noCurrent
    next h hh =>
      cases he
      exact .current h hh
  | newOwner =>
    simp only [step] at he
    split at he
    · cases he
      exact .noName _
    next name _ =>
      split at he
      · cases he
      next hnew =>
        cases he
        exact .name name fun h => hnew (.inl h)
  | insertHolder name renewed =>
    cases he
    exact .inserted name renewed
  | settle h n why =>
    obtain ⟨y, hy, heq⟩ := map_eq_some_iff.mp he
    cases heq
    refine .settled h n why y hy _ fun hdrop => ?_
    simp only [Bool.and_eq_true, decide_eq_true_eq] at hdrop
    exact ⟨hdrop.1.1.1, hdrop.2⟩
  | registerQuotaHolder name =>
    obtain ⟨rfl, rfl⟩ := Prod.ext_iff.mp (some.inj he)
    exact .registered name _ (ran_attempt ..)
  | acquireQuotaSlots h key batch limit =>
    obtain ⟨rfl, rfl⟩ := Prod.ext_iff.mp (some.inj he)
    exact did_acquire s c.outcome h key batch limit
  | releaseQuotaSlots h counts =>
    obtain ⟨rfl, rfl⟩ := Prod.ext_iff.mp (some.inj he)
    exact .sent h counts _ (ran_attempt ..)
  | renewQuotaHolder h | deleteQuotaHolder h | reapQuotaHolders | reapQuota =>
    obtain ⟨rfl, rfl⟩ := Prod.ext_iff.mp (some.inj he)
    exact .upkeep c.picks rfl (ran_attempt ..)
  | queueRelease h key w by_ =>
    cases he
    exact .queued h key w by_ _
  | takePending =>
    simp only [step] at he
    split at he
    · cases he
      exact .flushed
    · split at he
      next hlists =>
        cases he
        exact .taken _ hlists
      · cases he
  | _ => cases he

lemma Ran.known {step : QuotaStep} (h : s.Ran step s') (h₀ : String) :
    s'.known h₀ = s.known h₀ ∧ s'.queued h₀ = s.queued h₀ := by
  rcases h with rfl | rfl <;> exact ⟨rfl, rfl⟩

lemma Mild.known (h : s.Mild s') (h₀ : String) : s'.known h₀ = s.known h₀ := by
  unfold Registry.known
  rcases h.heap h₀ with ⟨hn, hn'⟩ | ⟨y, y', hy, hy', hknown, -⟩
  · rw [hn', hn]
  · rw [hy', hy, map_some, map_some, hknown]

lemma known_modify (s : Registry) (h₀ : String) {f : Holder → Holder} {n : ℤ} {y : Holder}
    (hy : s.heap h₀ = some y) (hf : (f y).known = y.known + n) (h : String) :
    (s.modify h₀ f).known h = s.known h + if h₀ = h then n else 0 := by
  unfold known modify
  rcases eq_or_ne h h₀ with rfl | hne
  · simp [hy, hf]
  · simp [hne, hne.symm]

lemma isSome_modify (s : Registry) (h₀ : String) (f : Holder → Holder) (h : String) :
    ((s.modify h₀ f).heap h).isSome = (s.heap h).isSome := by
  unfold modify
  rcases eq_or_ne h h₀ with rfl | hne
  · simp
  · simp [hne]

lemma Ran.usedBy {step : QuotaStep} (h : s.Ran step s') (hslots : s.world.db.SlotsSound)
    {h₀ : String} (hstep : ∀ ttl, step ≠ .register h₀ ttl) (hlive : s'.live h₀ = true)
    (key : String) :
    s.live h₀ = true ∧ s'.queuedAt h₀ key = s.queuedAt h₀ key ∧
      s.world.db.usedBy key h₀ ≤ s'.world.db.usedBy key h₀ + step.releases key h₀ := by
  rcases h with rfl | rfl
  · exact ⟨hlive, rfl, by omega⟩
  · refine ⟨QuotaWorld.live_of_next (fun ttl heq => absurd heq (hstep ttl)) hlive, rfl, ?_⟩
    exact QuotaWorld.usedBy_next hslots hlive

/-! ### An invariant -/

/-- What is known of the registry alone. -/
structure Kept (s : Registry) : Prop where
  /-- The current holder is not retired. -/
  current : ∀ h, s.current = some h → ∃ y, s.heap h = some y ∧ y.retired = false
  /-- A holder that is being deleted is retired and counts nothing. -/
  deleting : ∀ h y, s.heap h = some y → y.deleting = true → y.retired = true ∧ y.known = 0
  slots : s.world.db.SlotsSound

lemma Kept.current_isSome (hk : s.Kept) (h : String) (hh : s.current = some h) :
    (s.heap h).isSome = true := by
  obtain ⟨y, hy, -⟩ := hk.current h hh
  rw [hy]
  rfl

lemma Mild.kept (hm : s.Mild s') (hk : s.Kept) : s'.Kept where
  current h hh := by
    obtain ⟨y, hy, hret⟩ := hk.current h (hm.current h hh)
    rcases hm.heap h with ⟨hn, -⟩ | ⟨z, z', hz, hz', -, -, -, hcur⟩
    · rw [hn] at hy
      cases hy
    · obtain rfl : z = y := some.inj (hz.symm.trans hy)
      exact ⟨z', hz', (hcur hh).trans hret⟩
  deleting h y' hy' hdel := by
    rcases hm.heap h with ⟨-, hn⟩ | ⟨z, z', hz, hz', hknown, hdel', hret, -⟩
    · rw [hn] at hy'
      cases hy'
    · obtain rfl : z' = y' := some.inj (hz'.symm.trans hy')
      obtain ⟨hr, hk0⟩ := hk.deleting h z hz (hdel' ▸ hdel)
      exact ⟨hret hr, hknown.trans hk0⟩
  slots := hm.world ▸ hk.slots

lemma Ran.kept {step : QuotaStep} (hran : s.Ran step s') (hk : s.Kept) : s'.Kept := by
  rcases hran with rfl | rfl
  · exact hk
  · exact ⟨hk.current, hk.deleting, QuotaWorld.next_sound hk.slots step⟩

lemma Kept.changed (hk : s.Kept) (h₀ : String) {f : Holder → Holder}
    (hret : ∀ y, (f y).retired = y.retired)
    (hdel : ∀ y, s.heap h₀ = some y → (f y).deleting = true → y.retired = true ∧ (f y).known = 0) :
    (s.modify h₀ f).Kept where
  current h hh := by
    obtain ⟨y, hy, hr⟩ := hk.current h hh
    rcases eq_or_ne h h₀ with rfl | hne
    · exact ⟨f y, by simp [modify, hy], (hret y).trans hr⟩
    · exact ⟨y, by simp [modify, hne, hy], hr⟩
  deleting h y' hy' hd := by
    rcases eq_or_ne h h₀ with rfl | hne
    · simp only [modify, update_self, map_eq_some_iff] at hy'
      obtain ⟨y, hy, rfl⟩ := hy'
      obtain ⟨hr, h0⟩ := hdel y hy hd
      exact ⟨(hret y).trans hr, h0⟩
    · simp only [modify, update_of_ne hne] at hy'
      exact hk.deleting h y' hy' hd
  slots := hk.slots

lemma Did.kept (hd : Did ttl s a r s') (hk : s.Kept)
    (hsettle : ∀ h n why, a = .settle h n why → s.known h = 0 → n = 0) : s'.Kept := by
  cases hd with
  | mild ha hm => exact hm.kept hk
  | upkeep picks ha hran | registered name answer hran | sent h counts answer hran
  | notAcquired h key batch limit e hran => exact hran.kept hk
  | noCurrent | noName e => exact hk
  | flushed | name name hfresh | queued h key w by_ start | taken rows hlists =>
    exact ⟨hk.current, hk.deleting, hk.slots⟩
  | acquired h key batch limit granted hg => exact Ran.kept (.inr rfl) hk
  | current h hh =>
    refine hk.changed h (fun _ => rfl) fun y hy hdel => ?_
    obtain ⟨z, hz, hret⟩ := hk.current h hh
    obtain rfl : z = y := some.inj (hz.symm.trans hy)
    rw [(hk.deleting h z hz hdel).1] at hret
    cases hret
  | inserted name started =>
    refine ⟨fun h hh => ?_, fun h y hy hdel => ?_, hk.slots⟩
    · obtain rfl := some.inj hh
      exact ⟨_, update_self .., rfl⟩
    · rcases eq_or_ne h name with rfl | hne
      · simp only [update_self, some.injEq] at hy
        subst hy
        cases hdel
      · simp only [update_of_ne hne] at hy
        exact hk.deleting h y hy hdel
  | settled h n why y hy drop hdrop =>
    refine hk.changed h (fun _ => rfl) fun z hz hdel => ?_
    obtain rfl : y = z := some.inj (hy.symm.trans hz)
    rw [Bool.or_eq_true] at hdel
    rcases hdel with hdel | hdel
    · obtain ⟨hret, h0⟩ := hk.deleting h y hy hdel
      have hn : n = 0 := hsettle h n why rfl (by simp [Registry.known, hy, h0])
      exact ⟨hret, by simp [h0, hn]⟩
    · exact hdrop hdel

end Registry

end LlmdAsync.SqlFlow.QuotaStore
