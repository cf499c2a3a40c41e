import LlmdAsync.SqlQueue.Counted

/-!
# The in-flight count of a lease: the code of a consumer

Every operation of a consumer keeps `Counted`, provided that `Poll` only books requests of leases it
finds in the lease map (`booksKnown`).  What `Rebalance` learns from `Heartbeat`,
`AcquirePartitions` and `ReleasePartitions` stays true until it has updated the lease map, because
it holds the mutex `cycle`.

`Poll` meets an unknown lease only after an `AcquirePartitions` that took effect and still returned
an error: with `reportsAcquired` the condition holds by itself, and without it the count can be
wrong.  `Sanctioned` records under which circumstances the code books, gives up and abandons
requests and partitions.
-/

namespace LlmdAsync.SqlQueue

open Option Database Cluster Consumer Prog World ThreadSystem Prod

variable {cfg : Owner → Config} {t : Thread}

/-- No `AcquirePartitions` takes effect behind an error. -/
def reportsAcquired : Discipline Action Thread Cluster Choice Op EnvStep where
  act _ i ch _ := ∀ queue owner now ttl limit,
    i = .call (.acquirePartitions queue owner now ttl limit) → ch.outcome ≠ .lost
  start _ _ _ := True
  env _ _ := True

/-- The consumer knows the leases of these requests, at their epochs. -/
def Consumer.KnowsLeases (m : Consumer) (rows : List Request) : Prop :=
  ∀ q ∈ rows, m.leaseEpoch q.partition = some q.epoch

/-- `Poll` only books requests of leases the consumer knows. -/
def booksKnown : Discipline Action Thread Cluster Choice Op EnvStep where
  act t i _ σ := ∀ rows, i = .critical (.track rows) → (σ.memory t.consumer).KnowsLeases rows
  start _ _ _ := True
  env _ _ := True

/-- The discipline makes consumers hear of what they acquire. -/
def Reports (ok : Discipline Action Thread Cluster Choice Op EnvStep) : Prop :=
  ∀ t i ch σ, ok.act t i ch σ → reportsAcquired.act t i ch σ

/-- The discipline keeps consumers from booking under unknown leases, directly or because they hear
of what they acquire. -/
def Knows (ok : Discipline Action Thread Cluster Choice Op EnvStep) : Prop :=
  Reports ok ∨ ∀ t i ch σ, ok.act t i ch σ → booksKnown.act t i ch σ

/-- Nothing goes wrong: store calls succeed, no drain is overdue, and nobody abandons requests. -/
structure Graceful (ok : Discipline Action Thread Cluster Choice Op EnvStep) : Prop where
  outcome : ∀ t s ch σ, ok.act t (.call s) ch σ → ch.outcome = .ok
  patient : ∀ t now timeout ch σ, ok.act t (.critical (.drained now timeout)) ch σ →
    ∀ p st, (σ.memory t.consumer).leases.get? p = some st → st.draining = true →
      st.inflight = 0 ∨ now - st.drainSince < timeout
  start : ∀ t stamps σ, ¬ok.start t (.abandon stamps) σ

variable {β : Type} {op : CycleOp} {held : List Lease} {c : Owner} {sched : Sched} {w : World}
  {now : Time} {limit : ℕ}

lemma Graceful.reports {ok : Discipline Action Thread Cluster Choice Op EnvStep}
    (h : Graceful ok) : Reports ok := by
  rintro t i ch σ hact queue owner now ttl limit rfl
  rw [h.outcome t _ ch σ hact]
  decide

/-- Nothing is in flight of what the consumer owns of these partitions. -/
def Cluster.Quiesced (cfg : Owner → Config) (σ : Cluster) (c : Owner) (ps : List ℤ) : Prop :=
  ∀ p ∈ ps, ∀ e, σ.Owns cfg c p e → ∀ k x, (σ.memory c).inflight.get? k = some x →
    ¬(x.partition = p ∧ x.epoch = e)

/-- The circumstances under which the code acts. -/
def Sanctioned (cfg : Owner → Config) (ok : Discipline Action Thread Cluster Choice Op EnvStep)
    (t : Thread) (i : Action) (σ : Cluster) : Prop :=
  match i with
  | .critical (.track rows) => rows = σ.polling t.consumer ∧
      (σ.memory t.consumer).KnowsLeases rows
  | .critical .markReconcile => ¬Graceful ok
  | .critical (.abandon _) => ¬Graceful ok
  | .call (.releasePartitions _ _ ps) => Graceful ok → σ.dead t.consumer = false ∧
      σ.polling t.consumer = [] ∧ σ.Quiesced cfg t.consumer ps
  | .call (.leave ..) => σ.dead t.consumer = false ∧ σ.polling t.consumer = []
  | _ => True

variable {ok : Discipline Action Thread Cluster Choice Op EnvStep}

/-- The code keeps the counts exact and the other threads' rely, acts only as sanctioned, and ends
with `Q`.  That all dispatches are covered is known already. -/
abbrev Counts (cfg : Owner → Config) (ok : Discipline Action Thread Cluster Choice Op EnvStep)
    (t : Thread) {α : Type} (p : Code α) (Q : α → Cluster → Prop) (σ : Cluster) : Prop :=
  Runs cfg (ok.assuming Covered) (Counted cfg (Reports ok)) (Steady cfg) (Sanctioned cfg ok) t p Q σ

/-! ### Harmless code -/

/-- The action touches neither leases nor bookings. -/
def Action.harmless : Action → Bool
  | .call s => match s with
    | .dispatch .. | .acquirePartitions .. | .releasePartitions .. | .leave .. => false
    | _ => true
  | .critical .markReconcile => false
  | .critical s => s.keepsLeases
  | _ => false

variable {σ σ' : Cluster} {Q : Bool → Cluster → Prop}

lemma gentle_harmless {i : Action} (hi : i.harmless = true) {ch : Choice} {r : i.Reply}
    (hσ : Counted cfg (Reports ok) σ) (hexec : exec t i ch σ = some (r, σ')) :
    Sanctioned cfg ok t i σ ∧ Gentle cfg (Reports ok) σ σ' := by
  cases i with
  | lock | unlock => cases hi
  | critical s =>
    obtain ⟨-, rfl⟩ := exec_critical hexec
    have hmark : s ≠ .markReconcile := by
      rintro rfl
      cases hi
    have hkeep : s.keepsLeases = true := by
      cases s with
      | markReconcile => cases hi
      | _ => exact hi
    refine ⟨?_, gentle_keepsLeases hσ hkeep hmark⟩
    cases s with
    | track | abandon | markReconcile => cases hi
    | _ => exact trivial
  | call s =>
    refine ⟨?_, ?_⟩
    · cases s with
      | releasePartitions | leave => cases hi
      | _ => exact trivial
    · rcases exec_call hexec with ⟨-, rfl, -⟩ | ⟨rep, w, hw, rfl, -⟩
      · exact ThreadSystem.Spares.refl hσ
      · have hs : s.dispatcher? = none ∧ s.acquirer? = none := by
          cases s with
          | dispatch | acquirePartitions => cases hi
          | _ => exact ⟨rfl, rfl⟩
        rw [afterCall_of_not_dispatch hs.1]
        exact gentle_world hσ hw hs.2

lemma counts_harmless {α : Type} {p : Code α} {f : α → Code β} {Q : β → Cluster → Prop}
    (hp : p.Always fun i => i.harmless = true)
    (h : ∀ a σ', Steady cfg t σ σ' → Counts cfg ok t (f a) Q σ') :
    Counts cfg ok t (p >>= f) Q σ :=
  Runs.bind_always hp (fun _ hi _ _ _ _ _ hI _ _ hexec => gentle_harmless hi hI hexec) h

lemma Action.Aside.harmless {i : Action} (h : i.Aside) : i.harmless = true := by
  cases i with
  | lock | unlock => cases h
  | call s =>
    cases s with
    | undispatch | inFlight | resetStale => rfl
    | _ => cases h
  | critical s =>
    cases s with
    | readOrphans | forgetOrphans | readReconcile | untracked | clearReconcile | beat => rfl
    | _ => cases h

section Harmless

variable {q : String} {o : Owner} {g : Config}

lemma harmless_membership (expires : ℤ) (member : Bool) :
    (membership q o expires member).Always fun i => i.harmless = true := by
  unfold membership
  split
  · exact .step rfl fun _ => .pure
  · exact .step rfl fun _ => .pure

lemma harmless_storeResetStale (only : Option (List ℤ)) :
    (storeResetStale q o only).Always fun i => i.harmless = true :=
  always_callUnless (by rfl) _

lemma harmless_ensureSeeded : (ensureSeeded g).Always fun i => i.harmless = true := by
  refine .step rfl fun seeded => ?_
  cases seeded with
  | true => exact .pure
  | false =>
    refine .step rfl fun created => ?_
    cases created with
    | none => exact .pure
    | some _ => exact .step rfl fun _ => .pure

lemma harmless_undispatchOrphans (q : String) :
    (undispatchOrphans o).Always fun i => i.harmless = true :=
  (aside_undispatchOrphans q).mono fun _ h => h.2.harmless

lemma harmless_reconcileInFlight :
    (reconcileInFlight g o).Always fun i => i.harmless = true :=
  aside_reconcileInFlight.mono fun _ h => h.2.harmless

end Harmless

/-! ### Holding the mutex -/

/-- The thread is in a `Rebalance`; it knows all leases of its consumer if acquisitions are
reported. -/
structure Ready (cfg : Owner → Config) (reports : Prop) (t : Thread) (σ : Cluster) : Prop where
  holds : σ.Holds t .rebalance
  polling : σ.polling t.consumer = []
  alive : σ.dead t.consumer = false
  leased : reports → σ.Leased cfg t.consumer

lemma Steady.ready (hR : Steady cfg t σ σ') (h : Ready cfg (Reports ok) t σ) :
    Ready cfg (Reports ok) t σ' := by
  obtain ⟨hop, hpoll⟩ := hR.holds _ h.holds
  refine ⟨hop, hpoll.trans h.polling, hR.alive h.alive, fun hrep p e ho => ?_⟩
  rw [hR.leases _ h.holds]
  exact h.leased hrep p e (hR.quiet _ h.holds p e ho)

lemma counts_lock {f : Unit → Code β} {Q : β → Cluster → Prop} (halive : σ.dead t.consumer = false)
    (h : ∀ σ', Locked t op σ' → σ'.dead t.consumer = false →
      (Reports ok → σ'.Leased cfg t.consumer) → Counts cfg ok t (f ()) Q σ') :
    Counts cfg ok t (lock op >>= f) Q σ := by
  refine Runs.step fun σ₁ ch r σ₂ hR hI _ hok hexec => ?_
  obtain ⟨hfree, rfl⟩ := exec_lock hexec
  have halive₁ := hR.alive halive
  have hleased : Reports ok → σ₁.Leased cfg t.consumer := by
    refine fun hrep => hI.leased hrep _ halive₁ fun n hn => ?_
    rw [hfree] at hn
    cases hn
  have hpoll : σ₁.polling t.consumer = [] := by
    by_contra hne
    obtain ⟨n, hn⟩ := hok.2.polls t.consumer hne
    rw [hfree] at hn
    cases hn
  have hfair : Fair cfg (Reports ok) t σ₁ (σ₁.setCycle t.consumer (some (t.num, op))) := by
    refine fair_setCycle hI ?_ ?_ fun hrep _ _ => hleased hrep
    · intro u _ hc op' h'
      unfold Cluster.Holds at h'
      rw [hc, hfree] at h'
      cases h'
    · intro n op' heq
      cases heq
      rfl
  exact ⟨trivial, hfair, h _ ⟨cycle_setCycle_self _, hpoll⟩ halive₁ hleased⟩

lemma counts_unlock {b : β} (hop : σ.Holds t op)
    (hleased : op = .rebalance → Reports ok → σ.Leased cfg t.consumer) :
    Counts cfg ok t (do unlock; pure b) (fun _ => Idle t) σ := by
  refine Runs.step fun σ₁ ch r σ₂ hR hI _ _ hexec => ?_
  obtain rfl := exec_unlock hexec
  have hop₁ := (hR.holds op hop).1
  have hfair : Fair cfg (Reports ok) t σ₁ (σ₁.setCycle t.consumer none) := by
    refine fair_setCycle hI (fun u hu hc op' => hop₁.not_holds hu hc) (nofun) ?_
    intro hrep hd _ p e ho
    by_cases hreb : op = .rebalance
    · rw [hR.leases op hop]
      exact hleased hreb hrep p e (hR.quiet op hop p e ho)
    · refine hI.leased hrep _ hd (fun n hn => hreb ?_) p e ho
      unfold Cluster.Holds at hop₁
      rw [hop₁] at hn
      cases hn
      rfl
  refine ⟨trivial, hfair, ThreadSystem.Safe.pure fun op' h => ?_⟩
  unfold Cluster.Holds at h
  rw [cycle_setCycle_self] at h
  cases h

lemma counts_holder {s : Critical} {f : s.Reply → Code β} {Q : β → Cluster → Prop}
    (hop : σ.Holds t op) (hs : ∀ σ₁ ch, Steady cfg t σ σ₁ → Counted cfg (Reports ok) σ₁ →
      ok.act t (.critical s) ch σ₁ → Sanctioned cfg ok t (.critical s) σ₁ ∧
        Counted cfg (Reports ok) (σ₁.afterCritical t.consumer s)) (h : ∀ σ₁, Steady cfg t σ σ₁ →
      Counts cfg ok t (f (s.run (σ₁.memory t.consumer)).1) Q (σ₁.afterCritical t.consumer s)) :
    Counts cfg ok t (critical s >>= f) Q σ := by
  refine Runs.step fun σ₁ ch r σ₂ hR hI _ hact hexec => ?_
  obtain ⟨rfl, rfl⟩ := exec_critical hexec
  obtain ⟨hG, hI₂⟩ := hs σ₁ ch hR hI hact.1
  exact ⟨hG, ⟨hI₂, fun u => steady_critical_of_holds _ (hR.holds op hop).1⟩, h σ₁ hR⟩

/-! ### Heartbeat -/

/-- What a `Rebalance` knows once `Heartbeat` has returned the leases it holds. -/
structure Renewed (cfg : Owner → Config) (c : Owner) (held : List Lease) (σ : Cluster) : Prop where
  nodup : (held.map Lease.partition).Nodup
  /-- All that is owned has been returned. -/
  all : ∀ p e, σ.Owns cfg c p e → ∃ l ∈ held, l.partition = p ∧ l.epoch = e
  /-- Whatever is in flight of a returned lease was booked under it. -/
  known : ∀ l ∈ held, ∀ k x, (σ.memory c).inflight.get? k = some x → x.partition = l.partition →
    x.epoch = l.epoch → (σ.memory c).leaseEpoch l.partition = some l.epoch

lemma Steady.renewed (hR : Steady cfg t σ σ') (hop : σ.Holds t op)
    (h : Renewed cfg t.consumer held σ) :
    Renewed cfg t.consumer held σ' := by
  refine ⟨h.nodup, fun p e ho => h.all p e (hR.quiet op hop p e ho), ?_⟩
  intro l hl k x hx hp he
  rw [hR.leases op hop]
  exact h.known l hl k x (hR.entries op hop k x hx) hp he

lemma renewed_of_exec (hσ : Counted cfg (Reports ok) σ) {expires : ℤ}
    (hexec : σ.world.exec sched (.renewLeases (cfg c).queue c expires) = some (held, w)) :
    Renewed cfg c held { σ with world := w } := by
  have hx := some.inj (exec_eq_some.mp hexec).1
  have hheld : (σ.world.db.renewLeases (cfg c).queue c.name expires).1 = held :=
    congrArg fst hx
  obtain ⟨hnd, hown⟩ := renewLeases_spec σ.world.db c (cfg c).queue expires
  rw [hheld] at hnd hown
  have hback : ∀ p e, { σ with world := w }.Owns cfg c p e → σ.Owns cfg c p e := by
    intro p e ho
    rcases owns_of_exec hexec ho with ho | ⟨hacq, -⟩
    · exact ho
    · cases hacq
  refine ⟨hnd, fun p e ho => (hown p e).mp (hback p e ho), ?_⟩
  intro l hl k x hx hp he
  have ho : σ.Owns cfg c l.partition l.epoch := (hown _ _).mpr ⟨l, hl, rfl, rfl⟩
  rcases (hσ.accounted c k x hx).1 with hle | hno
  · rw [hp, he] at hle
    exact hle
  · rw [hp, he] at hno
    exact absurd ho hno

lemma counts_storeHeartbeat {ttl : Time} {member : Bool} {f : Option (List Lease × ℕ) → Code β}
    {Q : β → Cluster → Prop} (hnone : ∀ σ', Steady cfg t σ σ' → Counts cfg ok t (f none) Q σ')
    (hsome : ∀ held members σ', Steady cfg t σ σ' → Renewed cfg t.consumer held σ' →
      Counts cfg ok t (f (some (held, members))) Q σ') :
    Counts cfg ok t (storeHeartbeat (cfg t.consumer).queue t.consumer now ttl member >>= f) Q σ:= by
  refine .bind ?_
  refine counts_harmless (harmless_membership _ _) fun joined σ₁ hR₁ => ?_
  cases joined with
  | false => exact .pure (hnone σ₁ hR₁)
  | true =>
    refine counts_harmless (always_perform.mpr rfl) fun expired σ₂ hR₂ => ?_
    cases expired with
    | none => exact .pure (hnone σ₂ (hR₁.trans hR₂))
    | some _ =>
      refine counts_harmless (always_perform.mpr rfl) fun members σ₃ hR₃ => ?_
      cases members with
      | none => exact .pure (hnone σ₃ ((hR₁.trans hR₂).trans hR₃))
      | some members =>
        refine Runs.call ?_ fun r σ₄ hR₄ hrep _ => ?_
        · refine fun σ' ch _ hI _ _ => ⟨trivial, fun rep w hw => ?_⟩
          exact gentle_world hI hw rfl
        · have hR := ((hR₁.trans hR₂).trans hR₃).trans hR₄
          cases r with
          | none => exact .pure (hnone σ₄ hR)
          | some held =>
            refine .pure (hsome held members σ₄ hR ?_)
            obtain ⟨σ', sched, w, -, hI, -, hw, rfl⟩ := hrep held rfl
            exact renewed_of_exec hI hw

lemma Consumer.load_eq_zero {m : Consumer} {p e : ℤ} :
    m.load p e = 0 ↔ ∀ k x, m.inflight.get? k = some x → ¬(x.partition = p ∧ x.epoch = e):= by
  unfold load
  rw [List.countP_eq_zero]
  constructor
  · intro h k x hx hpe
    refine h x (Table.get?_eq_some.mp hx).1 ?_
    simpa using hpe
  · intro h x hx hpe
    refine h x.key x (Table.mem_iff_get?.mp hx) ?_
    simpa using hpe

lemma counts_syncLeases {f : Unit → Code β} {Q : β → Cluster → Prop}
    (hready : Ready cfg (Reports ok) t σ) (hheld : Renewed cfg t.consumer held σ)
    (h : ∀ σ', Ready cfg (Reports ok) t σ' → Counts cfg ok t (f ()) Q σ') :
    Counts cfg ok t (critical (.syncLeases held now) >>= f) Q σ := by
  have hleases : ∀ σ₁ : Cluster, Steady cfg t σ σ₁ → ∀ p e, σ₁.Owns cfg t.consumer p e →
      ((σ₁.memory t.consumer).syncLeases held now).leaseEpoch p = some e := by
    intro σ₁ hR₁ p e ho
    exact (leaseEpoch_syncLeases hheld.nodup now).mpr
      ((hR₁.renewed hready.holds hheld).all p e ho)
  refine counts_holder hready.holds ?_ fun σ₁ hR₁ => h _ ?_
  · intro σ₁ _ hR₁ hI _
    have hheld₁ := hR₁.renewed hready.holds hheld
    refine ⟨trivial, counted_critical hI ?_ ?_ ?_⟩
    · refine exact_syncLeases hheld.nodup now (hI.exact _) fun l hl hne => ?_
      refine load_eq_zero.mpr fun k x hx hpe => hne ?_
      exact hheld₁.known l hl k x hx hpe.1 hpe.2
    · intro k x hx
      obtain ⟨-, hle⟩ := hI.accounted t.consumer k x hx
      refine ⟨?_, hle⟩
      rw [memory_afterCritical_self]
      by_cases ho : σ₁.Owns cfg t.consumer x.partition x.epoch
      · exact .inl (hleases σ₁ hR₁ _ _ ho)
      · exact .inr ho
    · intro _ _ _ p e ho
      rw [memory_afterCritical_self]
      exact hleases σ₁ hR₁ p e ho
  · have hready₁ := hR₁.ready hready
    refine ⟨hready₁.holds, hready₁.polling, hready₁.alive, fun _ p e ho => ?_⟩
    rw [memory_afterCritical_self]
    exact hleases σ₁ hR₁ p e ho

/-! ### Giving partitions up -/

section DropLeases

variable {σ : Cluster} {c : Owner} {ps : List ℤ}

lemma leaseEpoch_afterDropLeases (p : ℤ) :
    ((σ.afterCritical c (.dropLeases ps)).memory c).leaseEpoch p =
      if p ∈ ps then none else (σ.memory c).leaseEpoch p := by
  rw [memory_afterCritical_self]
  exact leaseEpoch_dropLeases ps p

lemma leased_dropLeases (hgone : ∀ p ∈ ps, ∀ e, ¬σ.Owns cfg c p e) (h : σ.Leased cfg c) :
    (σ.afterCritical c (.dropLeases ps)).Leased cfg c := by
  intro p e ho
  rw [leaseEpoch_afterDropLeases, if_neg fun hp => hgone p hp e ho]
  exact h p e ho

lemma counted_dropLeases (hσ : Counted cfg (Reports ok) σ)
    (hgone : ∀ p ∈ ps, ∀ e, ¬σ.Owns cfg c p e) :
    Counted cfg (Reports ok) (σ.afterCritical c (.dropLeases ps)) := by
  refine counted_critical hσ (exact_dropLeases ps (hσ.exact c)) ?_
    fun hrep hd hcy => leased_dropLeases hgone (hσ.leased hrep c hd hcy)
  intro k x hx
  obtain ⟨h₁, h₂⟩ := hσ.accounted c k x hx
  refine ⟨?_, h₂⟩
  rw [leaseEpoch_afterDropLeases]
  by_cases hp : x.partition ∈ ps
  · exact .inr (hgone _ hp _)
  · rw [if_neg hp]
    exact h₁

end DropLeases

lemma quiesced_drained {timeout : Time} {ch : Choice} (hσ : Counted cfg (Reports ok) σ)
    (hready : Ready cfg (Reports ok) t σ) (hok : ok.act t (.critical (.drained now timeout)) ch σ)
    (hgraceful : Graceful ok) :
    σ.Quiesced cfg t.consumer ((σ.memory t.consumer).drained now timeout) := by
  intro p hp e ho
  obtain ⟨st, hst, hdrain, hor⟩ := mem_drained.mp hp
  have hzero : st.inflight = 0 := by
    rcases hgraceful.patient t now timeout ch σ hok p st hst hdrain with hzero | hlt
    · exact hzero
    · exact hor.resolve_right (not_le_of_gt hlt)
  have hepoch : st.epoch = e := by
    have hle := hready.leased hgraceful.reports p e ho
    unfold leaseEpoch at hle
    rw [hst] at hle
    exact some.inj hle
  refine load_eq_zero.mp ?_
  rw [← hepoch, ← hσ.exact t.consumer p st hst, hzero]

lemma Steady.quiesced {ps : List ℤ} (hR : Steady cfg t σ σ') (hop : σ.Holds t op)
    (h : σ.Quiesced cfg t.consumer ps) : σ'.Quiesced cfg t.consumer ps :=
  fun p hp e ho k x hx => h p hp e (hR.quiet op hop p e ho) k x (hR.entries op hop k x hx)

lemma counts_storeReleasePartitions {ps : List ℤ} {f : Bool → Code β} {Q : β → Cluster → Prop}
    (hready : Ready cfg (Reports ok) t σ) (hquiet : Graceful ok → σ.Quiesced cfg t.consumer ps)
    (h : ∀ released σ', Ready cfg (Reports ok) t σ' →
      (released = true → ∀ p ∈ ps, ∀ e, ¬σ'.Owns cfg t.consumer p e) →
      Counts cfg ok t (f released) Q σ') :
    Counts cfg ok t (storeReleasePartitions (cfg t.consumer).queue t.consumer ps >>= f) Q σ := by
  refine .bind ?_
  unfold storeReleasePartitions
  split
  next hnil =>
    refine .pure (h true σ hready fun _ p hp => ?_)
    rw [hnil] at hp
    cases hp
  · refine Runs.call ?_ fun r σ' hR hrep _ => ?_
    · intro σ₁ ch hR₁ hI _ _
      have hready₁ := hR₁.ready hready
      refine ⟨fun hg => ⟨hready₁.alive, hready₁.polling, ?_⟩, fun rep w hw => ?_⟩
      · exact hR₁.quiesced hready.holds (hquiet hg)
      · exact gentle_world hI hw rfl
    · refine .pure (h r.isSome σ' (hR.ready hready) fun hsome p hp e => ?_)
      obtain ⟨rep, hr⟩ := isSome_iff_exists.mp hsome
      obtain ⟨σ₁, sched, w, -, -, -, hw, rfl⟩ := hrep rep hr
      have hdb : σ₁.world.db.releasePartitions (cfg t.consumer).queue t.consumer.name ps = w.db :=
        congrArg snd (some.inj (exec_eq_some.mp hw).1)
      show ¬w.db.Owns _ _ _
      rw [← hdb]
      exact not_owns_releasePartitions hp

lemma counts_release {release : List ℤ} (hready : Ready cfg (Reports ok) t σ)
    (hquiet : Graceful ok → σ.Quiesced cfg t.consumer release)
    (h : ∀ released σ', Ready cfg (Reports ok) t σ' → Q released σ') :
    Counts cfg ok t (do
      match ← storeReleasePartitions (cfg t.consumer).queue t.consumer release with
      | false => pure false
      | true =>
        let _ ← critical (.dropLeases release)
        pure true) Q σ := by
  refine counts_storeReleasePartitions hready hquiet fun released σ₁ hready₁ hgone => ?_
  cases released with
  | false => exact .pure (h false σ₁ hready₁)
  | true =>
    have hgone₂ : ∀ σ₂ : Cluster, Steady cfg t σ₁ σ₂ → ∀ p ∈ release, ∀ e,
        ¬σ₂.Owns cfg t.consumer p e :=
      fun σ₂ hR p hp e ho => hgone rfl p hp e (hR.quiet _ hready₁.holds p e ho)
    refine counts_holder hready₁.holds ?_ fun σ₂ hR => .pure (h true _ ?_)
    · exact fun σ₂ _ hR hI _ => ⟨trivial, counted_dropLeases hI (hgone₂ σ₂ hR)⟩
    · have hready₂ := hR.ready hready₁
      exact ⟨hready₂.holds, hready₂.polling, hready₂.alive,
        fun hrep => leased_dropLeases (hgone₂ σ₂ hR) (hready₂.leased hrep)⟩

lemma counts_releaseDrained (hready : Ready cfg (Reports ok) t σ)
    (h : ∀ released σ', Ready cfg (Reports ok) t σ' → Q released σ') :
    Counts cfg ok t (releaseDrained (cfg t.consumer) t.consumer now) Q σ := by
  refine Runs.step fun σ₁ ch r σ₂ hR₁ hI _ hok hexec => ?_
  obtain ⟨rfl, rfl⟩ := exec_critical hexec
  have hgentle := gentle_keepsLeases (c := t.consumer)
    (s := .drained now (cfg t.consumer).drainTimeout) hI rfl (nofun)
  have hready₁ := hR₁.ready hready
  refine ⟨trivial, hgentle.keeps t, counts_release ((hgentle.2 t).ready hready₁) ?_ h⟩
  intro hg
  exact (hgentle.2 t).quiesced hready₁.holds (quiesced_drained hI hready₁ hok.1 hg)

/-! ### Acquiring partitions -/

/-- What a `Rebalance` knows once it has acquired partitions. -/
structure Acquired (cfg : Owner → Config) (reports : Prop) (c : Owner) (acquired : List Lease)
    (σ : Cluster) : Prop where
  nodup : (acquired.map Lease.partition).Nodup
  /-- Whatever is in flight of these partitions is older. -/
  fresh : ∀ l ∈ acquired, ∀ k x, (σ.memory c).inflight.get? k = some x →
    x.partition = l.partition → x.epoch < l.epoch
  /-- They are owned at the new epoch, if at all. -/
  owned : ∀ l ∈ acquired, ∀ e, σ.Owns cfg c l.partition e → e = l.epoch
  /-- All that is owned is known or has just been acquired. -/
  leased : reports → ∀ p e, σ.Owns cfg c p e → (σ.memory c).leaseEpoch p = some e ∨
    ∃ l ∈ acquired, l.partition = p ∧ l.epoch = e

lemma Steady.acquired {acquired : List Lease} (hR : Steady cfg t σ σ') (hop : σ.Holds t op)
    (h : Acquired cfg (Reports ok) t.consumer acquired σ) :
    Acquired cfg (Reports ok) t.consumer acquired σ' := by
  refine ⟨h.nodup, fun l hl k x hx => h.fresh l hl k x (hR.entries op hop k x hx),
    fun l hl e ho => h.owned l hl e (hR.quiet op hop _ e ho), fun hrep p e ho => ?_⟩
  rw [hR.leases op hop]
  exact h.leased hrep p e (hR.quiet op hop p e ho)

lemma acquired_of_exec (hσ : Counted cfg (Reports ok) σ) (hleased : Reports ok → σ.Leased cfg c)
    {ttl : Time} {acquired : List Lease}
    (hexec : σ.world.exec sched (.acquirePartitions (cfg c).queue c now ttl limit) =
      some (acquired, w)) : Acquired cfg (Reports ok) c acquired { σ with world := w } := by
  have hx := some.inj (exec_eq_some.mp hexec).1
  have hacq : (σ.world.db.acquirePartitions sched (cfg c).queue c.name now ttl limit).1 =
      acquired := congrArg fst hx
  have hdb : (σ.world.db.acquirePartitions sched (cfg c).queue c.name now ttl limit).2 = w.db :=
    congrArg snd hx
  have hnew : ∀ l ∈ acquired, w.db.Owns c ⟨(cfg c).queue, l.partition⟩ l.epoch ∧
      σ.world.db.epochOf ⟨(cfg c).queue, l.partition⟩ < l.epoch := by
    intro l hl
    rw [← hdb]
    exact owns_of_mem_acquirePartitions (hacq ▸ hl)
  refine ⟨hacq ▸ nodup_acquirePartitions .., ?_, ?_, ?_⟩
  · intro l hl k x hx hp
    have hle := (hσ.accounted c k x hx).2
    rw [hp] at hle
    exact lt_of_le_of_lt hle (hnew l hl).2
  · intro l hl e ho
    exact Database.Owns.epoch_eq ho (hnew l hl).1
  · intro hrep p e ho
    have ho' : w.db.Owns c ⟨(cfg c).queue, p⟩ e := ho
    rw [← hdb] at ho'
    rcases owns_acquirePartitions ho' with hold | hl
    · exact .inl (hleased hrep p e hold)
    · exact .inr (hacq ▸ hl)

lemma leased_adopt {acquired : List Lease} (hrep : Reports ok)
    (h : Acquired cfg (Reports ok) c acquired σ) :
    (σ.afterCritical c (.adopt acquired now)).Leased cfg c := by
  intro p e ho
  rw [memory_afterCritical_self]
  obtain ⟨hin, hout⟩ := leaseEpoch_adopt (c := σ.memory c) h.nodup now p
  by_cases hp : p ∈ acquired.map Lease.partition
  · obtain ⟨l, hl, rfl⟩ := List.mem_map.mp hp
    rw [h.owned l hl e ho]
    exact hin l hl rfl
  · refine (hout hp).trans ?_
    rcases h.leased hrep p e ho with hle | ⟨l, hl, rfl, -⟩
    · exact hle
    · exact absurd (List.mem_map_of_mem hl) hp

lemma counted_adopt {acquired : List Lease} (hσ : Counted cfg (Reports ok) σ)
    (h : Acquired cfg (Reports ok) c acquired σ) :
    Counted cfg (Reports ok) (σ.afterCritical c (.adopt acquired now)) := by
  refine counted_critical hσ ?_ ?_ fun hrep _ _ => leased_adopt hrep h
  · refine exact_adopt h.nodup now (hσ.exact c) fun l hl => ?_
    refine load_eq_zero.mpr fun k x hx hpe => ?_
    exact absurd hpe.2 (ne_of_lt (h.fresh l hl k x hx hpe.1))
  · intro k x hx
    obtain ⟨h₁, h₂⟩ := hσ.accounted c k x hx
    refine ⟨?_, h₂⟩
    rw [memory_afterCritical_self]
    obtain ⟨hin, hout⟩ := leaseEpoch_adopt (c := σ.memory c) h.nodup now x.partition
    by_cases hp : x.partition ∈ acquired.map Lease.partition
    · obtain ⟨l, hl, hlp⟩ := List.mem_map.mp hp
      refine .inr fun ho => ?_
      have ho' : σ.Owns cfg c l.partition x.epoch := hlp ▸ ho
      exact absurd (h.owned l hl _ ho') (ne_of_lt (h.fresh l hl k x hx hlp.symm))
    · rcases h₁ with hle | hno
      · exact .inl ((hout hp).trans hle)
      · exact .inr hno

lemma counts_grow {need : ℕ} {draining : List ℤ} (hready : Ready cfg (Reports ok) t σ)
    (h : ∀ balanced σ', Ready cfg (Reports ok) t σ' → Q balanced σ') :
    Counts cfg ok t (grow (cfg t.consumer) t.consumer now need draining) Q σ := by
  refine counts_harmless (always_callUnless (by rfl) _) fun undrained σ₁ hR₁ => ?_
  have hready₁ := hR₁.ready hready
  cases undrained with
  | false => exact .pure (h false σ₁ hready₁)
  | true =>
    refine counts_harmless (always_perform.mpr rfl) fun _ σ₂ hR₂ => ?_
    have hready₂ := hR₂.ready hready₁
    split
    · exact .pure (h true σ₂ hready₂)
    · refine Runs.step fun σ₃ ch r σ₄ hR₃ hI _ hact hexec => ?_
      have hready₃ := hR₃.ready hready₂
      rcases exec_call hexec with
        ⟨rfl, rfl, -⟩ | ⟨acquired, w, hw, rfl, ⟨rfl, -⟩ | ⟨rfl, hlost⟩⟩
      · exact ⟨trivial, (ThreadSystem.Spares.refl hI).keeps t,
          ThreadSystem.Safe.pure (h false σ₄ hready₃)⟩
      · have hacq : Acquired cfg (Reports ok) t.consumer acquired { σ₃ with world := w } :=
          acquired_of_exec hI hready₃.leased hw
        refine ⟨trivial, fair_acquire hI hready₃.holds hw, ?_⟩
        refine counts_holder (σ := { σ₃ with world := w }) hready₃.holds ?_ fun σ₅ hR₅ => ?_
        · intro σ₅ _ hR₅ hI₅ _
          exact ⟨trivial, counted_adopt hI₅ (hR₅.acquired hready₃.holds hacq)⟩
        · have hready₅ : Ready cfg (Reports ok) t
              (σ₅.afterCritical t.consumer (.adopt acquired now)) := by
            obtain ⟨hop, hpoll⟩ := hR₅.holds _ hready₃.holds
            exact ⟨hop, hpoll.trans hready₃.polling, hR₅.alive hready₃.alive,
              fun hrep => leased_adopt hrep (hR₅.acquired hready₃.holds hacq)⟩
          refine ThreadSystem.Safe.weaken (Runs.always (harmless_storeResetStale _) ?_) ?_
          · exact fun _ hi _ _ _ _ _ hI _ _ hexec => gentle_harmless hi hI hexec
          · exact fun b σ₆ hR₆ => h b σ₆ (hR₆.ready hready₅)
      · -- the consumer has acquired partitions and does not know it
        refine ⟨trivial, fair_acquire hI hready₃.holds hw, ThreadSystem.Safe.pure (h false _ ?_)⟩
        exact ⟨hready₃.holds, hready₃.polling, hready₃.alive,
          fun hrep => absurd hlost (hrep t _ ch σ₃ hact.1 _ _ _ _ _ rfl)⟩

lemma counts_shrink {active : List ℤ} {n : ℕ} (hready : Ready cfg (Reports ok) t σ)
    (h : ∀ balanced σ', Ready cfg (Reports ok) t σ' → Q balanced σ') :
    Counts cfg ok t (shrink (cfg t.consumer) t.consumer now active n) Q σ := by
  refine counts_harmless (always_perform.mpr rfl) fun drain σ₁ hR₁ => ?_
  refine counts_harmless (always_callUnless (by rfl) _) fun drained σ₂ hR₂ => ?_
  have hready₂ := hR₂.ready (hR₁.ready hready)
  cases drained with
  | false => exact .pure (h false σ₂ hready₂)
  | true =>
    refine counts_harmless (always_perform.mpr rfl) fun _ σ₃ hR₃ => ?_
    exact counts_releaseDrained (hR₃.ready hready₂) h

lemma counts_balance {target : ℕ} (hready : Ready cfg (Reports ok) t σ)
    (h : ∀ balanced σ', Ready cfg (Reports ok) t σ' → Q balanced σ') :
    Counts cfg ok t (balance (cfg t.consumer) t.consumer now target) Q σ := by
  refine counts_harmless (always_perform.mpr rfl) fun ps σ₁ hR₁ => ?_
  have hready₁ := hR₁.ready hready
  split
  · exact counts_grow hready₁ h
  · split
    · exact counts_shrink hready₁ h
    · exact .pure (h true σ₁ hready₁)

lemma counts_renewAndBalance (hready : Ready cfg (Reports ok) t σ)
    (h : ∀ balanced σ', Ready cfg (Reports ok) t σ' → Q balanced σ') :
    Counts cfg ok t (renewAndBalance (cfg t.consumer) t.consumer now) Q σ := by
  refine counts_harmless (always_perform.mpr rfl) fun stopping σ₁ hR₁ => ?_
  have hready₁ := hR₁.ready hready
  refine counts_storeHeartbeat (fun σ₂ hR₂ => ?_) fun held members σ₂ hR₂ hheld => ?_
  · exact .pure (h false σ₂ (hR₂.ready hready₁))
  · refine counts_syncLeases (hR₂.ready hready₁) hheld fun σ₃ hready₃ => ?_
    refine counts_harmless (.step rfl fun _ => harmless_storeResetStale _) fun wasReset σ₄ hR₄ => ?_
    have hready₄ := hR₄.ready hready₃
    cases wasReset with
    | false => exact .pure (h false σ₄ hready₄)
    | true =>
      refine .bind (counts_releaseDrained hready₄ fun released σ₅ hready₅ => ?_)
      cases released with
      | false => exact .pure (h false σ₅ hready₅)
      | true => exact counts_balance hready₅ h

lemma counts_rebalance (halive : σ.dead t.consumer = false) :
    Counts cfg ok t (rebalance (cfg t.consumer) t.consumer now) (fun _ => Idle t) σ := by
  refine counts_lock halive fun σ₁ hL halive₁ hleased => .bind ?_
  have hready₁ : Ready cfg (Reports ok) t σ₁ := ⟨hL.1, hL.2, halive₁, hleased⟩
  have hend : ∀ (b : Bool) σ', Ready cfg (Reports ok) t σ' →
      Counts cfg ok t (do unlock; pure b) (fun _ => Idle t) σ' :=
    fun b σ' hready => counts_unlock hready.holds fun _ => hready.leased
  refine counts_harmless harmless_ensureSeeded fun seeded σ₂ hR₂ => ?_
  have hready₂ := hR₂.ready hready₁
  cases seeded with
  | false => exact .pure (hend false σ₂ hready₂)
  | true =>
    refine counts_harmless (harmless_undispatchOrphans "") fun undispatched σ₃ hR₃ => ?_
    refine counts_harmless harmless_reconcileInFlight fun reconciled σ₄ hR₄ => ?_
    refine .bind (counts_renewAndBalance (hR₄.ready (hR₃.ready hready₂)) ?_)
    exact fun balanced σ₅ hready₅ => .pure (hend _ σ₅ hready₅)

/-! ### The other operations -/

lemma polled_of_exec (hσ : Counted cfg (Reports ok) σ) (halive : σ.dead t.consumer = false)
    (hop : σ.Holds t .poll) {rows : List Request} (hexec : σ.world.exec sched
      (.dispatch (cfg t.consumer).queue t.consumer now limit) = some (rows, w)) :
    (Reports ok → (σ.memory t.consumer).KnowsLeases rows) ∧ ∀ q ∈ rows, q.epoch ≤
        (σ.afterDispatch t.consumer rows w).epochOf cfg t.consumer q.partition := by
  have hdb := (exec_eq_some.mp hexec).1
  have hrows : (σ.world.db.dispatch sched (cfg t.consumer).queue t.consumer.name now limit).1 =
      rows := congrArg fst (some.inj hdb)
  have howns : ∀ q ∈ rows, σ.Owns cfg t.consumer q.partition q.epoch :=
    fun q hq => owns_of_mem_dispatch (hrows ▸ hq)
  refine ⟨fun hrep q hq => ?_, fun q hq => ?_⟩
  · refine hσ.leased hrep _ halive (fun n hn => ?_) _ _ (howns q hq)
    unfold Cluster.Holds at hop
    rw [hop] at hn
    cases hn
  · rw [← Database.Owns.epochOf_eq (howns q hq)]
    exact exec_epochOf_le hdb _

lemma counted_track {rows : List Request} (hσ : Counted cfg (Reports ok) σ)
    (hknown : (σ.memory c).KnowsLeases rows)
    (hepochs : ∀ q ∈ rows, q.epoch ≤ σ.epochOf cfg c q.partition) :
    Counted cfg (Reports ok) (σ.afterCritical c (.track rows)) := by
  have hle : ∀ p, ((σ.afterCritical c (.track rows)).memory c).leaseEpoch p =
      (σ.memory c).leaseEpoch p := by
    intro p
    rw [memory_afterCritical_self]
    exact leaseEpoch_track rows p
  refine counted_critical hσ (exact_track rows (hσ.exact c)) ?_
    fun hrep hd hcy p e ho => ?_
  · intro k x hx
    have hx' : ((σ.memory c).track rows).inflight.get? k = some x := hx
    rcases get?_inflight_track hx' with hold | ⟨q, hq, -, rfl⟩
    · obtain ⟨h₁, h₂⟩ := hσ.accounted c k x hold
      refine ⟨?_, h₂⟩
      rw [hle]
      exact h₁
    · refine ⟨.inl ?_, hepochs q hq⟩
      rw [hle]
      exact hknown q hq
  · rw [hle]
    exact hσ.leased hrep c hd hcy p e ho

lemma counts_poll (hok : Knows ok) (halive : σ.dead t.consumer = false) :
    Counts cfg ok t (poll (cfg t.consumer) t.consumer now limit) (fun _ => Idle t) σ := by
  refine counts_lock halive fun σ₁ hL halive₁ _ => ?_
  refine Runs.step fun σ₂ ch r σ₃ hR hI _ hact hexec => ?_
  obtain ⟨hop, hpoll⟩ := hR.holds _ hL.1
  have hop₃ : σ₃.Holds t .poll ∧ Fair cfg (Reports ok) t σ₂ σ₃ := by
    rcases exec_call hexec with ⟨-, rfl, -⟩ | ⟨rep, w, hw, rfl, -⟩
    · exact ⟨hop, (ThreadSystem.Spares.refl hI).keeps t⟩
    · exact ⟨hop, fair_dispatch hI hop hw⟩
  refine ⟨trivial, hop₃.2, ?_⟩
  cases r with
  | none =>
    refine counts_holder hop₃.1 ?_ fun σ₄ hR₄ => ?_
    · refine fun σ₄ _ _ hI₄ _ => ⟨fun hg => ?_, ?_⟩
      · exact outcome_of_none hexec (hg.outcome t _ ch σ₂ hact.1)
      · exact counted_unbook hI₄ (hI₄.exact _) (fun _ _ hx => hx) fun _ => rfl
    · exact counts_unlock (hR₄.holds _ hop₃.1).1 nofun
  | some rows =>
    obtain ⟨w, hw, rfl⟩ := exec_dispatch hexec
    refine counts_holder hop₃.1 ?_ fun σ₄ hR₄ => ?_
    · intro σ₄ ch₄ hR₄ hI₄ hact₄
      have hpoll₄ : σ₄.polling t.consumer = rows :=
        (hR₄.holds _ hop₃.1).2.trans (polling_afterDispatch_self ..)
      obtain ⟨hleases, hepochs⟩ := polled_of_exec hI (hR.alive halive₁) hop hw
      have hknown : (σ₄.memory t.consumer).KnowsLeases rows := by
        rcases hok with hrep | hbooks
        · exact fun q hq => (hR₄.leases _ hop₃.1 _).trans (hleases hrep q hq)
        · exact hbooks t _ ch₄ σ₄ hact₄ rows rfl
      refine ⟨⟨hpoll₄.symm, hknown⟩, counted_track hI₄ hknown fun q hq => ?_⟩
      exact (hepochs q hq).trans (hR₄.epochs _)
    · exact counts_unlock (hR₄.holds _ hop₃.1).1 nofun

lemma counts_close (halive : σ.dead t.consumer = false) :
    Counts cfg ok t (close (cfg t.consumer) t.consumer) (fun _ => Idle t) σ := by
  refine counts_lock halive fun σ₁ hL₁ halive₁ _ => ?_
  refine counts_harmless (harmless_undispatchOrphans "") fun undispatched σ₂ hR₂ => ?_
  obtain ⟨hop₂, hpoll₂⟩ := hR₂.holds _ hL₁.1
  refine Runs.call ?_ fun r σ₃ hR₃ hrep _ => ?_
  · intro σ' ch hR' hI _ _
    refine ⟨⟨hR'.alive (hR₂.alive halive₁), ?_⟩, fun rep w hw => gentle_world hI hw rfl⟩
    exact ((hR'.holds _ hop₂).2.trans hpoll₂).trans hL₁.2
  · have hop₃ := (hR₃.holds _ hop₂).1
    cases r with
    | none => exact counts_unlock hop₃ nofun
    | some rep =>
      -- after `Leave` the consumer owns nothing
      have hgone : ∀ p e, ¬σ₃.Owns cfg t.consumer p e := by
        obtain ⟨σ', sched, w, -, -, -, hw, rfl⟩ := hrep rep rfl
        have hdb : σ'.world.db.leave (cfg t.consumer).queue t.consumer.name = w.db :=
          congrArg snd (some.inj (exec_eq_some.mp hw).1)
        intro p e
        show ¬w.db.Owns _ _ _
        rw [← hdb]
        exact not_owns_leave
      refine counts_holder hop₃ ?_ fun σ₄ hR₄ => ?_
      · intro σ₄ _ hR₄ hI₄ _
        have hgone₄ : ∀ p e, ¬σ₄.Owns cfg t.consumer p e :=
          fun p e ho => hgone p e (hR₄.quiet _ hop₃ p e ho)
        refine ⟨trivial, counted_critical hI₄ ?_ ?_ fun _ _ _ p e ho =>
          absurd ho (hgone₄ p e)⟩
        · intro p st hst
          cases hst
        · intro k x hx
          exact ⟨.inr (hgone₄ _ _), (hI₄.accounted _ k x hx).2⟩
      · exact counts_unlock (hR₄.holds _ hop₃).1 nofun

lemma counts_done {stamps : List Stamp} {b : β} (hidle : Idle t σ) :
    Counts cfg ok t (do let _ ← critical (.done stamps); pure b) (fun _ => Idle t) σ :=
  Runs.critical (fun _ _ hI => ⟨trivial, gentle_done hI⟩) fun _ _ _ hR =>
    ThreadSystem.Safe.pure (hR.free hidle)

lemma counts_undispatch {stamps : List Stamp} {notBefore : ℤ} (hidle : Idle t σ) :
    Counts cfg ok t (undispatch t.consumer stamps notBefore) (fun _ => Idle t) σ := by
  refine .bind ?_
  unfold storeUndispatch
  split
  · exact .pure (counts_done hidle)
  · refine Runs.call ?_ fun r σ₁ hR₁ _ hfail => ?_
    · exact fun _ _ _ hI _ _ => ⟨trivial, fun rep w hw => gentle_world hI hw rfl⟩
    · refine .pure ?_
      cases r with
      | some _ => exact counts_done (hR₁.free hidle)
      | none =>
        refine Runs.critical (fun σ₂ _ hI => ⟨fun hg => ?_, gentle_abandon hI⟩) fun _ _ _ hR₂ => ?_
        · obtain ⟨σ', ch, hact, hout⟩ := hfail rfl
          exact hout (hg.outcome t _ ch σ' hact.1)
        · exact .pure ((hR₁.trans hR₂).free hidle)

lemma counts_retry {stamp : Stamp} {notBefore : ℤ} {envelope : String} (hidle : Idle t σ) :
    Counts cfg ok t (retry t.consumer stamp notBefore envelope) (fun _ => Idle t) σ := by
  refine counts_harmless (always_perform.mpr rfl) fun r σ₁ hR₁ => ?_
  cases r with
  | none => exact .pure (hR₁.free hidle)
  | some _ => exact counts_done (hR₁.free hidle)

lemma counts_ack {cs : List Completion} {createdAt : ℤ} (hidle : Idle t σ) :
    Counts cfg ok t (ack t.consumer cs createdAt) (fun _ => Idle t) σ := by
  refine .bind ?_
  unfold storeAck
  split
  · exact .pure (counts_done hidle)
  · refine counts_harmless (always_perform.mpr rfl) fun r σ₁ hR₁ => ?_
    cases r with
    | none => exact .pure (.pure (hR₁.free hidle))
    | some _ => exact .pure (counts_done (hR₁.free hidle))

lemma counts_code (hok : Knows ok) {o : Op} (hidle : Idle t σ) (halive : σ.dead t.consumer = false)
    (hstart : ok.start t o σ) :
    Counts cfg ok t (o.code (cfg t.consumer) t.consumer) (fun _ => Idle t) σ := by
  cases o with
  | poll now limit => exact .bind (counts_poll hok halive)
  | ack cs createdAt => exact .bind (counts_ack hidle)
  | retry stamp notBefore envelope => exact .bind (counts_retry hidle)
  | undispatch stamps | defer stamps notBefore => exact .bind (counts_undispatch hidle)
  | abandon stamps =>
    exact Runs.critical (fun _ _ hI => ⟨fun hg => hg.start t stamps σ hstart, gentle_abandon hI⟩)
      fun _ _ _ hR => .pure (hR.free hidle)
  | stop =>
    exact Runs.critical (fun _ _ hI => ⟨trivial, gentle_keepsLeases hI rfl nofun⟩)
      fun _ _ _ hR => .pure (hR.free hidle)
  | rebalance now => exact .bind (counts_rebalance halive)
  | close => exact .bind (counts_close halive)

/-! ### Every run -/

lemma counted_env {e : EnvStep} (hσ : Counted cfg (Reports ok) σ)
    (henv : (system cfg).env e σ = some σ') :
    Counted cfg (Reports ok) σ' ∧
      ∀ t, if (system cfg).kills e t then Idle t σ' else Steady cfg t σ σ' := by
  cases e with
  | crash c =>
    cases henv
    refine ⟨⟨hσ.exact, hσ.accounted, ?_⟩, fun t => ?_⟩
    · intro hrep c' hd hcy
      have hc : c' ≠ c := by
        rintro rfl
        rw [dead_crash_self] at hd
        cases hd
      rw [dead_crash_of_ne hc] at hd
      rw [cycle_crash_of_ne hc] at hcy
      exact hσ.leased hrep c' hd hcy
    · show if decide (t.consumer = c) = true then _ else _
      split
      next hc =>
        intro op hop
        unfold Cluster.Holds at hop
        rw [of_decide_eq_true hc, cycle_crash_self] at hop
        cases hop
      next hc =>
        rw [decide_eq_true_eq] at hc
        have hcycle : ∀ op, (σ.crash c).Holds t op ↔ σ.Holds t op := by
          intro op
          unfold Cluster.Holds
          rw [cycle_crash_of_ne hc]
        exact ⟨fun op hop => ⟨(hcycle op).mpr hop, polling_crash_of_ne hc⟩,
          fun hf op hop => hf op ((hcycle op).mp hop),
          fun hd => (dead_crash_of_ne hc).trans hd, fun _ => le_refl _,
          fun _ _ _ _ h => h, fun _ _ _ _ h => h, fun _ _ _ => rfl⟩
  | client sched s =>
    change envStep (.client sched s) σ = some σ' at henv
    simp only [envStep] at henv
    split at henv
    next hclient =>
      obtain ⟨⟨rep, w⟩, hw, rfl⟩ := map_eq_some_iff.mp henv
      have hgentle : Gentle cfg (Reports ok) σ { σ with world := w } := by
        refine gentle_world hσ hw ?_
        cases s with
        | acquirePartitions => cases hclient
        | _ => rfl
      exact ⟨hgentle.1, fun t => hgentle.2 t⟩
    · cases henv

lemma counted_initial : Counted cfg (Reports ok) initial := by
  refine ⟨fun c p st hst => ?_, fun c k x hx => ?_, fun _ c _ _ p e ho => ?_⟩
  · cases hst
  · cases hx
  · obtain ⟨row, hrow, -⟩ := ho
    cases hrow

/-- Counts are exact in every state of such a run, and the code acts as sanctioned. -/
theorem counted_of_reachable (hok : Knows ok) {P : Pool Action Action.Reply Thread Cluster}
    (h : (system cfg).Reachable ok initial P) :
    Counted cfg (Reports ok) P.state ∧
      (system cfg).Reachable ((sound cfg (ok.assuming Covered)).performing (Sanctioned cfg ok))
        initial P := by
  have hcovered : (system cfg).Reachable (ok.assuming Covered) initial P := by
    refine ThreadSystem.Reachable.assuming (fun P hP => ?_) h
    exact (covered_of_reachable hP.free).1
  have hstart : ∀ t o σ, Counted cfg (Reports ok) σ → Idle t σ →
      (sound cfg (ok.assuming Covered)).start t o σ → (system cfg).starts t o σ = true →
      Counts cfg ok t ((system cfg).program t o) (fun _ => Idle t) σ := by
    intro t o σ _ hidle hok' hstarts
    have halive := (Bool.and_eq_true_iff.mp hstarts).1
    exact counts_code hok hidle (by simpa using halive) hok'.1.1
  obtain ⟨hσ, -, hreach⟩ := ThreadSystem.Reachable.safe (fun _ _ _ hR hidle => hR.free hidle)
    ⟨counted_initial, fun t op hop => by cases hop⟩ hstart (fun _ _ _ hσ _ => counted_env hσ)
    (reachable_sound hcovered)
  exact ⟨hσ, hreach⟩

lemma reachable_booksKnown {P : Pool Action Action.Reply Thread Cluster}
    (h : (system cfg).Reachable reportsAcquired initial P) :
    (system cfg).Reachable booksKnown initial P := by
  refine ThreadSystem.Reachable.mono ?_ (fun _ _ _ _ => trivial) (fun _ _ _ => trivial)
    (counted_of_reachable (.inl fun _ _ _ _ h => h) h).2
  rintro t i ch σ hact rows rfl
  exact hact.2.2

/-- In a run in which `Poll` only books requests of leases it finds in the lease map, the in-flight
count of every lease of every consumer is the number of its in-flight entries of the lease's
partition and epoch, in every state. -/
theorem inflight_count_exact {P : Pool Action Action.Reply Thread Cluster}
    (h : (system cfg).Reachable booksKnown Cluster.initial P) (c : Owner)
    {st : PartitionState} (hst : st ∈ (P.state.memory c).leases.rows) :
    st.inflight = (P.state.memory c).inflight.rows.countP fun x =>
      x.partition = st.partition && x.epoch = st.epoch := by
  obtain ⟨hσ, -⟩ := counted_of_reachable (.inr fun _ _ _ _ h => h) h
  exact hσ.exact c st.partition st (Table.mem_iff_get?.mp hst)

/-- No store call of the step fails. -/
def Label.calm : Label Thread Choice Op EnvStep → Bool
  | .act _ ch => ch.outcome = .ok
  | _ => true

lemma allowed_of_calm (P : Pool Action Action.Reply Thread Cluster)
    (l : Label Thread Choice Op EnvStep) (h : Label.calm l = true) :
    ThreadSystem.Allowed reportsAcquired P l := by
  cases l with
  | act t ch =>
    have hout : ch.outcome = .ok := of_decide_eq_true h
    intro i k _ queue owner now ttl limit _
    rw [hout]
    decide
  | _ => exact trivial

/-- After `pollRun`, the lease of the dispatched request counts it. -/
theorem pollRun_count :
    let P := (system queueConfig).run (idle initial) pollRun
    1 = (P.state.memory ⟨"dispatcher-0", by decide⟩).inflight.rows.countP fun x =>
      x.partition = partitionOf "r1" && x.epoch = 1 :=
  inflight_count_exact
    (reachable_booksKnown (reachable_run_of_passes _ allowed_of_calm
      (passes_of_all _ (by decide) _)))
    ⟨"dispatcher-0", by decide⟩
    (show (⟨partitionOf "r1", 1, 0, false, Time.zero, 1⟩ : PartitionState) ∈ _ by decide +kernel)

/-- A request is enqueued, a `Rebalance` acquires all partitions and does not hear of it, `Poll`
dispatches the request, and the next `Rebalance` finds the leases in the store. -/
def lostAcquireRun : List (Label Thread Choice Op EnvStep) :=
  let t : Thread := ⟨⟨"dispatcher-0", first_ne⟩, 0⟩
  .env (.client Sched.plain
      (.enqueue 0 [⟨⟨"r1", "t1"⟩, "q", 0, 0, 0, 600, "", [], false, 0⟩])) ::
    (.start t (.rebalance 0) :: List.replicate 18 (.act t ⟨.ok, Sched.plain⟩) ++
      [.act t ⟨.lost, Sched.plain⟩, .act t ⟨.ok, Sched.plain⟩, .finish t]) ++
    alone t (.poll 0 10) ++ alone t (.rebalance 0)

/-- After this run, with no operation in progress, the request is in flight and the lease of its
partition counts nothing. -/
theorem lostAcquireRun_not_exact :
    let P := (system queueConfig).run (idle initial) lostAcquireRun
    let c : Owner := ⟨"dispatcher-0", by decide⟩
    (system queueConfig).Reachable .free initial P ∧ (P.prog ⟨c, 0⟩).isNone = true ∧
      ∃ st ∈ (P.state.memory c).leases.rows, st.inflight = 0 ∧
        ((P.state.memory c).inflight.rows.countP fun x =>
          x.partition = st.partition && x.epoch = st.epoch) = 1 :=
  ⟨reachable_run _ _ _, by decide +kernel, by decide +kernel⟩

end LlmdAsync.SqlQueue
