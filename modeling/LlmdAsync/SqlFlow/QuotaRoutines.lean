import LlmdAsync.SqlFlow.QuotaBooks

/-!
# Goroutines of the quota store, and holders that are to be deleted

`wg` counts the goroutines of the ledger.  A closed store spawns none, so that after `wg.Wait` no
statement can be counted against a holder any more.  This is why a holder without a count may be
deleted then.  Before, only a retired holder without a count is deleted: it is not the current one,
so that nothing is counted against it either.
-/

namespace LlmdAsync.SqlFlow.QuotaStore

open SqlQueue Custody List Option Function Multiset Entry Action AdmitReply Registry

variable {ttl : ℤ} {t : Thread} {c : Choice} {x : Audit} {s s' : State} {a : Action} {r : a.Reply}
  {past : History}

attribute [local simp] Action.needs Action.collects Action.yields Action.deposits

/-- The entry of a goroutine that has not started. -/
def spawnedEntry : Option Job → Multiset Entry
  | some _ => {.running}
  | none => 0

/-- What is known of goroutines. -/
structure Running (x : Audit) : Prop where
  wg : x.store.life.wg = x.ledger.weigh Entry.runs
  /-- A goroutine that has not started is counted. -/
  jobs : ∀ n, x.ledger.held (.job n) = spawnedEntry (x.store.life.jobs n)
  fresh : ∀ n, x.store.life.nextJob ≤ n → x.store.life.jobs n = none

lemma AdmitReply.load_runs (reply : AdmitReply) (key : String) (w : ℕ) :
    (∀ p, load runs (reply.slot p key w) = 0) ∧ load runs (reply.claim key w) = 0 ∧
      load runs (reply.right key w) = 0 := by
  obtain ⟨ok, holder, err⟩ := reply
  cases ok <;> cases holder <;> cases err <;>
    simp [slot, claim, right, runs]

lemma runs_balanced (ha : a.part = .registry ∨ a.part = .slots) (s : State) :
    load runs a.needs + load runs (a.collects r) =
      load runs (a.yields r) + load runs (a.deposits s r) := by
  have hslot := fun reply key w => (load_runs reply key w).1
  have hclaim := fun reply key w => (load_runs reply key w).2.1
  have hright := fun reply key w => (load_runs reply key w).2.2
  cases a with
  | select key w | abandon key w | countCurrent | answer key w reply =>
    cases r <;> simp [runs, hslot, hclaim, hright]
  | receive key w | send key w reply =>
    simp [runs, hslot, hright]
  | takeBatch k =>
    simp [runs, load_each]
  | settle h n why =>
    cases why <;> simp [Settled.entry, Settled.rest, runs, load_each]
  | newOwner | registerQuotaHolder name => cases r <;> rfl
  | acquireQuotaSlots h key batch limit =>
    cases r <;> simp [runs, load_each]
  | takePending =>
    simp [runs, comp_def]
  | enqueue k | tick | spawn job | begin | exit | close | cancel | wait =>
    rcases ha with ha | ha <;> cases ha
  | _ => rfl

namespace Audit

lemma held_enter_idle (hcollects : a.collects r = 0) (hdeposits : a.deposits x.store r = 0)
    {q : Place} (hq : q ≠ .hand t) : (x.enter t a r).held q = x.ledger.held q := by
  rcases eq_or_ne q (site x.store t a) with rfl | hsite
  · rw [held_enter_site (hcollects ▸ zero_le _), hcollects, hdeposits]
    simp
  · exact held_enter_elsewhere hq hsite

end Audit

lemma Audit.held_job (ha : a.part = .registry ∨ a.part = .slots) (n : ℕ) :
    (x.enter t a r).held (.job n) = x.ledger.held (.job n) := by
  rcases ha with ha | ha
  · obtain ⟨hcollects, hdeposits⟩ := registry_site (r := r) (s := x.store) ha
    exact held_enter_idle hcollects hdeposits Place.noConfusion
  · cases a with
    | abandon key w | answer key w reply | takeBatch k =>
      exact held_enter_idle rfl rfl Place.noConfusion
    | select key w | receive key w | send key w reply =>
      exact held_enter_elsewhere Place.noConfusion Place.noConfusion
    | _ => cases ha

namespace Running

lemma same (hx : Running x) (hn : a.needs ≤ x.ledger.held (.hand t))
    (hc : a.collects r ≤ x.ledger.held (site x.store t a))
    (hruns : load runs a.needs + load runs (a.collects r) =
      load runs (a.yields r) + load runs (a.deposits x.store r))
    (hheld : ∀ n, (x.enter t a r).held (.job n) = x.ledger.held (.job n))
    (hwg : s'.life.wg = x.store.life.wg) (hjobs : s'.life.jobs = x.store.life.jobs)
    (hnext : s'.life.nextJob = x.store.life.nextJob) : Running ⟨s', x.enter t a r, past⟩ where
  wg := by
    have hweigh := x.weigh_enter (r := r) hn hc runs
    have hold := hx.wg
    dsimp only
    omega
  jobs n := by
    refine (hheld n).trans ((hx.jobs n).trans ?_)
    exact congrArg spawnedEntry (congrFun hjobs n).symm
  fresh n hn := (congrFun hjobs n).trans (hx.fresh n (hnext ▸ hn))

lemma idle (hx : Running x) (hneeds : a.needs = 0) (hyields : a.yields r = 0)
    (hcollects : a.collects r = 0) (hdeposits : a.deposits x.store r = 0)
    (hwg : s'.life.wg = x.store.life.wg) (hjobs : s'.life.jobs = x.store.life.jobs)
    (hnext : s'.life.nextJob = x.store.life.nextJob) : Running ⟨s', x.enter t a r, past⟩ := by
  refine hx.same (hneeds ▸ zero_le _) (hcollects ▸ zero_le _) ?_ ?_ hwg hjobs
    hnext
  · rw [hneeds, hyields, hcollects, hdeposits]
  · exact fun n => Audit.held_enter_idle hcollects hdeposits Place.noConfusion

lemma spawned (hx : Running x) (hneeds : load runs a.needs = 0)
    (hyields : load runs (a.yields r) = 0) (hcollects : a.collects r = 0)
    (hdeposits : a.deposits x.store r = {.running})
    (hsite : site x.store t a = .job x.store.life.nextJob) (hn : a.needs ≤ x.ledger.held (.hand t))
    {job : Job} (hlife : s'.life = x.store.life.spawned job) :
    Running ⟨s', x.enter t a r, past⟩ where
  wg := by
    have hweigh := x.weigh_enter (r := r) hn (hcollects ▸ zero_le _) runs
    rw [hcollects, hdeposits, hneeds, hyields, load_singleton] at hweigh
    have hwg := hx.wg
    rw [hlife]
    simp only [Lifetime.spawned, load_zero, runs] at hweigh ⊢
    omega
  jobs m := by
    rcases eq_or_ne m x.store.life.nextJob with rfl | hne
    · have hheld := hx.jobs x.store.life.nextJob
      have henter := Audit.held_enter_site (x := x) (t := t) (r := r)
        (hcollects ▸ zero_le _)
      rw [hsite, hcollects, hdeposits, hheld, hx.fresh _ (le_refl _)] at henter
      have hjob : s'.life.jobs x.store.life.nextJob = some job := by
        rw [hlife]
        exact update_self ..
      exact henter.trans (congrArg spawnedEntry hjob).symm
    · have hjob : s'.life.jobs m = x.store.life.jobs m := by
        rw [hlife]
        exact update_of_ne hne ..
      refine Eq.trans ?_ ((hx.jobs m).trans (congrArg spawnedEntry hjob).symm)
      refine Audit.held_enter_elsewhere Place.noConfusion ?_
      rw [hsite]
      exact fun h => hne (Place.job.inj h)
  fresh m hm := by
    rw [hlife] at hm ⊢
    simp only [Lifetime.spawned] at hm ⊢
    rw [update_of_ne (by omega)]
    exact hx.fresh m (by omega)

lemma step (hx : Running x) (hn : a.needs ≤ x.ledger.held (.hand t))
    (hc : a.collects r ≤ x.ledger.held (site x.store t a))
    (he : effect ttl t a c x.store = some (r, s')) : Running ⟨s', x.enter t a r, past⟩ := by
  rcases effect_cases he with ⟨hpart, s₁, hs₁, rfl⟩ | ⟨hpart, s₁, hs₁, rfl⟩ |
    ⟨hpart, s₁, hs₁, rfl⟩ | ⟨hpart, hs'⟩
  · exact hx.same hn hc (runs_balanced (.inl hpart) x.store)
      (fun n => Audit.held_job (.inl hpart) n) rfl rfl rfl
  · cases a with
    | tick =>
      simp only [Lifetime.step] at hs₁
      split at hs₁
      · split at hs₁ <;> cases hs₁
        exact hx.idle rfl rfl rfl rfl rfl rfl rfl
      · cases hs₁
        exact hx.idle rfl rfl rfl rfl rfl rfl rfl
    | close | cancel =>
      cases hs₁
      exact hx.idle rfl rfl rfl rfl rfl rfl rfl
    | wait =>
      simp only [Lifetime.step] at hs₁
      split at hs₁ <;> cases hs₁
      exact hx.idle rfl rfl rfl rfl rfl rfl rfl
    | spawn job =>
      simp only [Lifetime.step] at hs₁
      split at hs₁ <;> cases hs₁
      · exact hx.idle rfl rfl rfl rfl rfl rfl rfl
      · exact hx.spawned rfl rfl rfl rfl rfl hn rfl
    | begin =>
      cases t with
      | routine n =>
        obtain ⟨job, hjob, heq⟩ := map_eq_some_iff.mp hs₁
        cases heq
        refine ⟨?_, fun m => ?_, fun m hm => ?_⟩
        · have hweigh := x.weigh_enter (r := r) hn hc runs
          have hwg := hx.wg
          simp only [needs, collects, yields, deposits, load_zero, load_singleton] at hweigh
          dsimp only
          omega
        · rcases eq_or_ne m n with rfl | hne
          · have henter := Audit.held_enter_site (x := x) (t := .routine m) hc
            dsimp only [site] at henter
            rw [hx.jobs m, hjob] at henter
            refine henter.trans ?_
            simp [spawnedEntry]
          · refine (Audit.held_enter_elsewhere Place.noConfusion ?_).trans ((hx.jobs m).trans ?_)
            · exact fun h => hne (Place.job.inj h)
            · simp [hne]
        · rcases eq_or_ne m n with rfl | hne
          · exact update_self ..
          · simp only [update_of_ne hne]
            exact hx.fresh m hm
      | caller i | closer i => exact nomatch hs₁
    | exit =>
      cases hs₁
      have hload := load_le_weigh hn runs
      have hweigh := x.weigh_enter hn hc runs
      have hwg := hx.wg
      refine ⟨?_, fun m => ?_, hx.fresh⟩
      · simp only [needs, collects, yields, deposits, load_zero,
          load_singleton, runs] at hload hweigh
        dsimp only
        omega
      · exact (Audit.held_enter_idle rfl rfl Place.noConfusion).trans (hx.jobs m)
    | _ => cases hpart
  · exact hx.same hn hc (runs_balanced (.inr hpart) x.store)
      (fun n => Audit.held_job (.inr hpart) n) rfl rfl rfl
  · cases a with
    | enqueue k =>
      simp only [State.step] at hs'
      split at hs'
      next ws hws =>
        cases hs'
        have hdeposits :
            (enqueue k).deposits x.store (some x.store.slots.nextWaiter) = 0 := by
          simp [hws]
        refine hx.same hn hc ?_ (fun n => ?_) rfl rfl rfl
        · rw [hdeposits]
          rfl
        · exact Audit.held_enter_idle rfl hdeposits Place.noConfusion
      next hws =>
        split at hs' <;> cases hs'
        · exact hx.idle rfl rfl rfl rfl rfl rfl rfl
        · exact hx.spawned rfl rfl rfl (by simp [hws]) rfl hn rfl
    | _ => cases hpart

end Running

/-! ### Facts -/

/-- What the facts that threads know mean. -/
def Fact.Holds : Fact → Audit → Prop
  | .taken k batch, x => (k, batch) ∈ x.past.batches
  | .closed, x => x.store.life.closed = true
  | .quiet, x => x.store.life.closed = true ∧ x.store.life.wg = 0
  | .doomed h, x =>
    (∃ y, x.store.registry.heap h = some y ∧ y.deleting = true) ∨
    (x.store.life.closed = true ∧ x.store.life.wg = 0 ∧
      (x.store.registry.heap h).isSome = true ∧ x.store.registry.known h = 0)

lemma effect_closed (he : effect ttl t a c s = some (r, s')) (hclosed : s.life.closed = true) :
    s'.life.closed = true ∧ s'.life.wg ≤ s.life.wg := by
  rcases effect_cases he with ⟨-, s₁, -, rfl⟩ | ⟨hpart, s₁, hs₁, rfl⟩ | ⟨-, s₁, -, rfl⟩ |
    ⟨hpart, hs'⟩
  · exact ⟨hclosed, le_refl _⟩
  · cases a with
    | tick =>
      simp only [Lifetime.step] at hs₁
      split at hs₁
      · split at hs₁ <;> cases hs₁
        exact ⟨hclosed, le_refl _⟩
      · cases hs₁
        exact ⟨hclosed, le_refl _⟩
    | spawn job =>
      simp only [Lifetime.step, hclosed, if_true] at hs₁
      cases hs₁
      exact ⟨hclosed, le_refl _⟩
    | begin =>
      cases t with
      | routine n =>
        obtain ⟨job, -, heq⟩ := map_eq_some_iff.mp hs₁
        cases heq
        exact ⟨hclosed, le_refl _⟩
      | caller i | closer i => exact nomatch hs₁
    | exit =>
      cases hs₁
      exact ⟨hclosed, Nat.sub_le _ _⟩
    | close =>
      cases hs₁
      exact ⟨rfl, le_refl _⟩
    | cancel =>
      cases hs₁
      exact ⟨hclosed, le_refl _⟩
    | wait =>
      simp only [Lifetime.step] at hs₁
      split at hs₁ <;> cases hs₁
      exact ⟨hclosed, le_refl _⟩
    | _ => cases hpart
  · exact ⟨hclosed, le_refl _⟩
  · cases a with
    | enqueue k =>
      simp only [State.step, hclosed, if_true] at hs'
      split at hs' <;> cases hs' <;> exact ⟨hclosed, le_refl _⟩
    | _ => cases hpart

namespace Registry

variable {s s' : Registry}

lemma Did.deleting (hd : Did ttl s a r s') (hnew : ∀ name started,
    a = .insertHolder name started → s.heap name = none) {h : String} {y : Holder}
    (hy : s.heap h = some y) (hdel : y.deleting = true) :
    ∃ y', s'.heap h = some y' ∧ y'.deleting = true := by
  have hmodify : ∀ (h₀ : String) {f : Holder → Holder}, (∀ z, z.deleting = true →
      (f z).deleting = true) → ∃ y', (s.modify h₀ f).heap h = some y' ∧ y'.deleting = true := by
    intro h₀ f hf
    rcases eq_or_ne h h₀ with rfl | hne
    · exact ⟨f y, by simp [modify, hy], hf y hdel⟩
    · exact ⟨y, by simp [modify, hne, hy], hdel⟩
  cases hd with
  | mild ha hm =>
    rcases hm.heap h with ⟨hn, -⟩ | ⟨z, z', hz, hz', -, hdel', -⟩
    · rw [hn] at hy
      cases hy
    · obtain rfl : z = y := some.inj (hz.symm.trans hy)
      exact ⟨z', hz', hdel'.trans hdel⟩
  | upkeep picks ha hran | registered name answer hran | notAcquired h₀ key batch limit e hran
  | sent h₀ counts answer hran => rcases hran with rfl | rfl <;> exact ⟨y, hy, hdel⟩
  | current h₀ hh₀ => exact hmodify h₀ fun _ hz => hz
  | settled h₀ n why z hz drop hdrop =>
    exact hmodify h₀ fun z hz => by simp [hz]
  | inserted name started =>
    have hne : h ≠ name := by
      rintro rfl
      rw [hnew h started rfl] at hy
      cases hy
    exact ⟨y, by simp [hne, hy], hdel⟩
  | _ => exact ⟨y, hy, hdel⟩

lemma Did.known_zero (hd : Did ttl s a r s') (hcount : a ≠ .countCurrent)
    (hinsert : ∀ name started, a ≠ .insertHolder name started)
    (hsettle : ∀ h n why, a = .settle h n why → s.known h = 0 → n = 0) {h : String}
    (hsome : (s.heap h).isSome = true) (h0 : s.known h = 0) :
    (s'.heap h).isSome = true ∧ s'.known h = 0 := by
  cases hd with
  | mild ha hm =>
    refine ⟨?_, (hm.known h).trans h0⟩
    rcases hm.heap h with ⟨hn, -⟩ | ⟨z, z', -, hz', -⟩
    · rw [hn] at hsome
      cases hsome
    · rw [hz']
      rfl
  | upkeep picks ha hran | registered name answer hran | notAcquired h₀ key batch limit e hran
  | sent h₀ counts answer hran => rcases hran with rfl | rfl <;> exact ⟨hsome, h0⟩
  | current h₀ hh₀ => exact absurd rfl hcount
  | inserted name started => exact absurd rfl (hinsert name started)
  | settled h₀ n why z hz drop hdrop =>
    refine ⟨(isSome_modify s h₀ _ h).trans hsome, ?_⟩
    rw [known_modify s h₀ hz (n := -n) rfl, h0, zero_add]
    split
    next heq =>
      subst heq
      rw [hsettle h₀ n why rfl h0, neg_zero]
    · rfl
  | _ => exact ⟨hsome, h0⟩

end Registry

lemma Running.wg_pos (hr : Running x) (hn : {.running} ≤ x.ledger.held (.hand t)) :
    0 < x.store.life.wg := by
  have hload := load_le_weigh hn runs
  rw [hr.wg]
  exact hload

lemma Fact.Holds.step (hx : Counted x) (hr : Running x) (hn : a.needs ≤ x.ledger.held (.hand t))
    (hsound : a.sound) (he : effect ttl t a c x.store = some (r, s')) {f : Fact} (hf : f.Holds x) :
    f.Holds ⟨s', x.enter t a r, x.past.record a r⟩ := by
  cases f with
  | taken k batch =>
    have hkeep : ∀ b ∈ x.past.batches, b ∈ (x.past.record a r).batches := by
      intro b hb
      cases a with
      | takeBatch k => exact mem_cons_of_mem _ hb
      | acquireQuotaSlots h key batch limit => cases r <;> exact hb
      | queueRelease h key w by_ => cases by_ <;> exact hb
      | _ => exact hb
    exact hkeep _ hf
  | closed => exact (effect_closed he hf).1
  | quiet =>
    obtain ⟨hclosed, hle⟩ := effect_closed he hf.1
    exact ⟨hclosed, Nat.le_zero.mp (hf.2 ▸ hle)⟩
  | doomed h =>
    rcases effect_cases he with ⟨-, s₁, hs₁, rfl⟩ | ⟨-, s₁, -, rfl⟩ | ⟨-, s₁, -, rfl⟩ | ⟨-, hs'⟩
    · have hd := step_did hs₁
      rcases hf with ⟨y, hy, hdel⟩ | ⟨hclosed, hwg, hsome, h0⟩
      · exact .inl (hd.deleting (hx.fresh_insert hn) hy hdel)
      · refine .inr ⟨hclosed, hwg, hd.known_zero ?_ ?_ (hx.settle_zero hn hsound) hsome h0⟩
        · rintro rfl
          exact absurd hwg (hr.wg_pos hn).ne'
        · rintro name started rfl
          have hrun : {.running} ≤ x.ledger.held (.hand t) :=
            (singleton_le.mpr (by simp)).trans hn
          exact absurd hwg (hr.wg_pos hrun).ne'
    all_goals
      rcases hf with hdel | ⟨hclosed, hwg, hknown⟩
    · exact .inl hdel
    · obtain ⟨hclosed', hle⟩ := effect_closed he hclosed
      exact .inr ⟨hclosed', Nat.le_zero.mp (hwg ▸ hle), hknown⟩
    · exact .inl hdel
    · exact .inr ⟨hclosed, hwg, hknown⟩
    · rw [← State.step_registry hs'] at hdel
      exact .inl hdel
    · obtain ⟨hclosed', hle⟩ := effect_closed he hclosed
      rw [← State.step_registry hs'] at hknown
      exact .inr ⟨hclosed', Nat.le_zero.mp (hwg ▸ hle), hknown⟩

lemma learns_holds (hrelies : ∀ f ∈ a.relies, f.Holds x)
    (he : effect ttl t a c x.store = some (r, s')) :
    ∀ f ∈ a.learns r, f.Holds ⟨s', x.enter t a r, x.past.record a r⟩ := by
  intro f hf
  cases a with
  | takeBatch k =>
    obtain rfl : f = .taken k r := by simpa [learns] using hf
    exact mem_cons_self
  | settle h n why =>
    cases r with
    | false => simp [learns] at hf
    | true =>
      obtain rfl : f = .doomed h := by simpa [learns] using hf
      rcases effect_cases he with ⟨-, s₁, hs₁, rfl⟩ | ⟨hpart, -⟩ | ⟨hpart, -⟩ | ⟨hpart, -⟩
      · cases step_did hs₁ with
        | mild ha | upkeep picks ha => cases ha
        | settled h n why y hy drop hdrop =>
          refine .inl ⟨{ y with known := y.known - n, deleting := y.deleting || true }, ?_, ?_⟩
          · simp [Registry.modify, hy]
          · exact Bool.or_true _
      all_goals cases hpart
  | isDeleting h =>
    cases r with
    | false => simp [learns] at hf
    | true =>
      obtain rfl : f = .doomed h := by simpa [learns] using hf
      rcases effect_cases he with ⟨-, s₁, hs₁, rfl⟩ | ⟨hpart, -⟩ | ⟨hpart, -⟩ | ⟨hpart, -⟩
      · obtain ⟨hdel, rfl⟩ := Prod.mk.inj (some.inj hs₁)
        obtain ⟨y, hy, hdel⟩ := (any_eq_true _ _).mp hdel
        exact .inl ⟨y, hy, hdel⟩
      all_goals cases hpart
  | close =>
    obtain rfl : f = .closed := by simpa [learns] using hf
    cases he
    rfl
  | wait =>
    obtain rfl : f = .quiet := by simpa [learns] using hf
    have hclosed := hrelies .closed mem_cons_self
    rcases effect_cases he with ⟨hpart, -⟩ | ⟨-, s₁, hs₁, rfl⟩ | ⟨hpart, -⟩ | ⟨hpart, -⟩
    · cases hpart
    · simp only [Lifetime.step] at hs₁
      split at hs₁
      next hwg =>
        cases hs₁
        exact ⟨hclosed, hwg⟩
      · cases hs₁
    · cases hpart
    · cases hpart
  | idleHolders =>
    obtain ⟨h, hh, rfl⟩ := mem_map.mp hf
    obtain ⟨hclosed, hwg⟩ := hrelies .quiet mem_cons_self
    rcases effect_cases he with ⟨-, s₁, hs₁, rfl⟩ | ⟨hpart, -⟩ | ⟨hpart, -⟩ | ⟨hpart, -⟩
    · simp only [step] at hs₁
      split at hs₁
      next hperm =>
        cases hs₁
        have hidle := (mem_filter.mp (hperm.mem_iff.mp hh)).2
        obtain ⟨y, hy, h0⟩ := (any_eq_true _ _).mp hidle
        simp only [Bool.and_eq_true, decide_eq_true_eq] at h0
        exact .inr ⟨hclosed, hwg, by simp [hy], by simp [known, hy, h0.1]⟩
      · cases hs₁
    all_goals cases hpart
  | _ => simp [learns] at hf

end LlmdAsync.SqlFlow.QuotaStore
