import LlmdAsync.SqlFlow.QuotaReplies

/-!
# The quota store never counts less than it hands out

The invariants of the books, the goroutines, the tally, the queues and the replies hold in every
state that callers, goroutines and `Close` can reach, whatever statements return and other stores
do.
-/

namespace LlmdAsync.SqlFlow.QuotaStore

open SqlQueue Custody List Option Multiset Entry Registry QuotaStore

variable {ttl : ℤ} {t : Thread} {c : Choice} {x : Audit} {s s' : State} {a : Action} {r : a.Reply}

/-! ### The order within a batch -/

namespace Entry

/-- How often a waiter is to be answered that has not been granted a slot. -/
def pends (w : ℕ) : Entry → ℕ
  | .duty _ w' => if w' = w then 1 else 0
  | .refused _ w' => if w' = w then 1 else 0
  | _ => 0

/-- How often a waiter is to be answered that has been granted a slot. -/
def wins (w : ℕ) : Entry → ℕ
  | .won _ _ ws => ws.countP fun w' => w' = w
  | .slot .ready _ _ w' => if w' = w then 1 else 0
  | _ => 0

lemma opens_eq (w : ℕ) (e : Entry) : e.opens w = e.pends w + e.wins w := by
  cases e with
  | slot phase h key w' => cases phase <;> simp [opens, pends, wins]
  | _ => simp [opens, pends, wins]

lemma brings_eq (w : ℕ) (e : Entry) :
    e.brings (fun g => g.waiter = w) = e.wins w + e.leaves w := by
  cases e with
  | slot phase h key w' => cases phase <;> simp [brings, wins, leaves]
  | _ => simp [brings, wins, leaves]

end Entry

/-- The waiter has been granted a slot. -/
def History.grants (p : History) (w : ℕ) : Prop := ∃ g ∈ p.granted, g.waiter = w

lemma History.not_grants {p : History} {w : ℕ} (h : p.granted.countP (fun g => g.waiter = w) = 0) :
    ¬ p.grants w := by
  rintro ⟨g, hg, heq⟩
  exact countP_eq_zero.mp h g hg (by simpa using heq)

lemma granted_once (hq : Queued x) (hy : Tallied x) (w : ℕ) :
    x.past.granted.countP (fun g => g.waiter = w) + x.ledger.weigh (pends w) ≤
        x.past.batched.countP (fun w' => w' = w) ∧ x.past.batched.countP (fun w' => w' = w) ≤ 1:= by
  have hopens : x.ledger.weigh (opens w) =
      x.ledger.weigh (pends w) + x.ledger.weigh (wins w) :=
    weigh_split (opens_eq w) x.ledger
  have hbrings : x.ledger.weigh (brings fun g => g.waiter = w) =
      x.ledger.weigh (wins w) + x.ledger.weigh (leaves w) :=
    weigh_split (brings_eq w) x.ledger
  have htaken := hy.opens w
  have hdecided := hy.decided w
  have hgranted := hy.granted fun g => g.waiter = w
  have hle : x.past.decided.countP (fun d => d = (w, true)) ≤
      x.past.decided.countP fun d => d.1 = w := by
    refine countP_mono_left fun d _ hd => ?_
    simp only [decide_eq_true_eq] at hd ⊢
    rw [hd]
  have hcount := nodup_iff_count_le_one.mp hq.nodup w
  rw [count_eq_countP] at hcount
  refine ⟨by omega, hcount⟩

/-- Waiters of a batch are granted slots in the order of arrival. -/
def Ordered (x : Audit) : Prop :=
  ∀ b ∈ x.past.batches, b.2.Pairwise fun w w' => x.past.grants w' → x.past.grants w

lemma batched_of_grants (hq : Queued x) (hy : Tallied x) {w : ℕ} (hw : x.past.grants w) :
    w ∈ x.past.batched := by
  obtain ⟨g, hg, heq⟩ := hw
  have hpos : 0 < x.past.granted.countP fun g => g.waiter = w :=
    countP_pos_iff.mpr ⟨g, hg, by simpa using heq⟩
  obtain ⟨w', hw', heq'⟩ := countP_pos_iff.mp
    (hpos.trans_le ((Nat.le_add_right _ _).trans (granted_once hq hy w).1))
  rwa [decide_eq_true_eq.mp heq'] at hw'

lemma batch_unique (hq : Queued x) {b b' : SlotKey × List ℕ} (hb : b ∈ x.past.batches)
    (hb' : b' ∈ x.past.batches) {w : ℕ} (hw : w ∈ b.2) (hw' : w ∈ b'.2) : b = b' := by
  by_contra hne
  have hdisjoint := (nodup_flatMap.mp hq.nodup).2
  have : Std.Symm (Function.onFun List.Disjoint (Prod.snd : SlotKey × List ℕ → List ℕ)) :=
    ⟨fun _ _ h => h.symm⟩
  exact hdisjoint.forall hb hb' hne hw hw'

lemma pairwise_of_take {P : ℕ → Prop} {ws : List ℕ} (n : ℕ) (htake : ∀ w ∈ ws.take n, P w)
    (hdrop : ∀ w ∈ ws.drop n, ¬ P w) : ws.Pairwise fun w w' => P w' → P w := by
  rw [← take_append_drop n ws]
  refine pairwise_append.mpr ⟨?_, ?_, fun w hw _ _ _ => htake w hw⟩
  · exact pairwise_of_forall_mem_list fun w hw _ _ _ => htake w hw
  · exact pairwise_of_forall_mem_list fun _ _ w' hw' h => absurd h (hdrop w' hw')

lemma Ordered.step (hx : Ordered x) (hq : Queued x) (hy : Tallied x)
    (hn : a.needs ≤ x.ledger.held (.hand t)) (hrelies : ∀ f ∈ a.relies, f.Holds x)
    (hd : Batcher.Did x.store.slots a r s'.slots) (ledger : Custody Place Entry) :
    Ordered ⟨s', ledger, x.past.record a r⟩ := by
  cases a with
  | takeBatch k =>
    intro b hb
    rcases List.mem_cons.mp hb with rfl | hb
    · generalize s'.slots = slots at hd
      cases hd with
      | other r ha => rcases ha with ha | ha <;> cases ha
      | taken k =>
        refine List.pairwise_of_forall_mem_list fun w hw w' hw' hgrants => ?_
        exact absurd (batched_of_grants hq hy hgrants) ((hq.getD k).2 w' hw').2.2
    · exact hx b hb
  | acquireQuotaSlots h key batch limit =>
    cases r with
    | error e => exact hx
    | ok granted =>
      have hmem : (⟨key, limit⟩, batch) ∈ x.past.batches := hrelies _ List.mem_cons_self
      have hnew : ∀ w, (x.past.record (.acquireQuotaSlots h key batch limit)
          (.ok granted)).grants w ↔ w ∈ batch.take granted.val ∨ x.past.grants w := by
        intro w
        simp only [History.grants, History.record, List.mem_append, List.mem_map, or_and_right,
          exists_or]
        refine or_congr_left ⟨?_, fun hw => ⟨⟨h, key, w⟩, ⟨w, hw, rfl⟩, rfl⟩⟩
        rintro ⟨g, ⟨w', hw', rfl⟩, rfl⟩
        exact hw'
      -- No waiter of the batch has been granted a slot before.
      have hnone : ∀ w ∈ batch, ¬ x.past.grants w := by
        intro w hw
        have hload := load_le_weigh hn (pends w)
        have hduty :
            0 < load (pends w) (Action.acquireQuotaSlots h key batch limit).needs := by
          refine Nat.pos_of_ne_zero fun h0 => ?_
          have hzero := load_eq_zero.mp h0 (.duty key w)
            (mem_cons_of_mem (mem_each.mpr ⟨w, hw, rfl⟩))
          simp [pends] at hzero
        have honce := granted_once hq hy w
        exact History.not_grants (by omega)
      intro b hb
      by_cases hsame : b = (⟨key, limit⟩, batch)
      · subst hsame
        have hnodup : batch.Nodup := (hq.batch _ hmem).1.imp ne_of_lt
        have hsplit := List.take_append_drop granted.val batch
        have hdisjoint : List.Disjoint (batch.take granted.val) (batch.drop granted.val) :=
          (List.nodup_append'.mp (hsplit.symm ▸ hnodup)).2.2
        refine pairwise_of_take granted.val (fun w hw => (hnew w).mpr (.inl hw)) ?_
        intro w hw hgrants
        rcases (hnew w).mp hgrants with htake | hold
        · exact hdisjoint htake hw
        · exact hnone w (List.mem_of_mem_drop hw) hold
      · refine (hx b hb).imp_of_mem fun {w w'} hw hw' hold hgrants => (hnew w).mpr (.inr ?_)
        refine hold (((hnew w').mp hgrants).resolve_left fun htake => hsame ?_)
        exact batch_unique hq hb hmem hw' (List.mem_of_mem_take htake)
  | queueRelease h key w by_ => cases by_ <;> exact hx
  | _ => exact hx

/-! ### All states -/

/-- What is known of the quota store. -/
structure Sound (x : Audit) : Prop where
  counted : Counted x
  running : Running x
  tallied : Tallied x
  queued : Queued x
  served : Served x
  ordered : Ordered x

namespace Sound

lemma newQuotaStore {world : QuotaWorld} (h : world.db.SlotsSound) :
    Sound (newQuotaStore world) := by
  have hledger : (QuotaStore.newQuotaStore world).ledger = put (.job 0) {.running} := rfl
  have hweigh : ∀ f : Entry → ℕ, (QuotaStore.newQuotaStore world).ledger.weigh f = f .running := by
    intro f
    rw [hledger, weigh_put, load_singleton]
  refine ⟨⟨⟨fun h => nofun, fun h y => nofun, h⟩, fun h => ?_, fun h key _ => ?_, fun n => ?_, ?_⟩,
    ⟨?_, fun n => ?_, fun n hn => ?_⟩, ⟨fun w => ?_, fun w => ?_, fun P => ?_, fun P => ?_⟩,
    ⟨fun k ws => nofun, fun b hb => ?_, nodup_nil⟩,
    ⟨fun e he => ?_, fun w => ?_, fun w _ => rfl, fun w => nofun, ?_, ?_, ?_, fun w => ?_,
      fun w => ?_⟩, fun b hb => ?_⟩
  · rw [hweigh]
    rfl
  · rw [hweigh]
    exact QuotaDb.SlotsSound.usedBy_nonneg ‹_› key h
  · rw [hweigh]
    exact Nat.zero_le _
  · rw [hweigh]
    rfl
  · rw [hweigh]
    rfl
  · rcases eq_or_ne n 0 with rfl | hne
    · rw [hledger, held_put_self]
      rfl
    · rw [hledger, held_put_of_ne fun heq => hne (Place.job.inj heq)]
      simp [QuotaStore.newQuotaStore, hne, spawnedEntry]
  · have hne : n ≠ 0 := Nat.ne_of_gt hn
    simp [QuotaStore.newQuotaStore, hne]
  · rw [hweigh]
    rfl
  · rw [hweigh]
    rfl
  · rw [hweigh]
    rfl
  · rw [hweigh]
    rfl
  · exact absurd hb not_mem_nil
  · rw [hledger, mem_put] at he
    obtain ⟨-, he⟩ := he
    rw [Multiset.mem_singleton.mp he]
    trivial
  · rw [hledger, held_put_of_ne Place.noConfusion]
    rfl
  · exact fun g hg => absurd hg not_mem_nil
  · exact fun g hg => absurd hg not_mem_nil
  · exact fun g hg => absurd hg not_mem_nil
  · rw [hweigh, hweigh]
    simp [QuotaStore.newQuotaStore, Batcher.due, awaits, comes]
  · rw [hweigh]
    exact Nat.zero_le _
  · exact absurd hb not_mem_nil

lemma step (hx : Sound x) (hn : a.needs ≤ x.ledger.held (.hand t))
    (hrelies : ∀ f ∈ a.relies, f.Holds x) (hsound : a.sound)
    (he : effect ttl t a c x.store = some (r, s')) :
    Sound ⟨s', x.enter t a r, x.past.record a r⟩ := by
  have hc := hx.served.collects_le hx.running hn he
  have hd := effect_did he
  exact ⟨hx.counted.step hn hc hsound he, hx.running.step hn hc he, hx.tallied.step hn hc,
    hx.queued.step hd _, hx.served.step hx.queued hx.tallied hn hc he,
    hx.ordered.step hx.queued hx.tallied hn hrelies hd _⟩

lemma event (hx : Sound x) {e : Event} {s₁ : Registry} (he : e.step x.store.registry = some s₁) :
    Sound { x with store := { x.store with registry := s₁ } } ∧ s₁.heap = x.store.registry.heap:= by
  have hrest : ∀ hc : Counted { x with store := { x.store with registry := s₁ } },
      Sound { x with store := { x.store with registry := s₁ } } := fun hc =>
    ⟨hc, ⟨hx.running.wg, hx.running.jobs, hx.running.fresh⟩,
      ⟨hx.tallied.opens, hx.tallied.decided, hx.tallied.granted, hx.tallied.handed⟩,
      ⟨hx.queued.queue, hx.queued.batch, hx.queued.nodup⟩,
      ⟨hx.served.fits, hx.served.channel, hx.served.unborn, hx.served.answered, hx.served.granted,
        hx.served.handed, hx.served.returned, hx.served.awaits, hx.served.alone⟩, hx.ordered⟩
  have hcounted := hx.counted
  cases e with
  | clock ns =>
    obtain rfl := some.inj he
    refine ⟨hrest ⟨⟨hcounted.kept.current, hcounted.kept.deleting, hcounted.kept.slots⟩,
      hcounted.known, hcounted.backed, hcounted.names, hcounted.sized⟩, rfl⟩
  | statement step =>
    simp only [Event.step] at he
    split at he
    · cases he
    next hholder =>
      obtain rfl := some.inj he
      have hran : x.store.registry.Ran step
        { x.store.registry with world := x.store.registry.world.next step } := .inr rfl
      have hkept := hran.kept hcounted.kept
      refine ⟨hrest ⟨hkept, hcounted.known, fun h key hlive => ?_, hcounted.names,
        hcounted.sized⟩, rfl⟩
      by_cases hname : h ∈ x.store.registry.names
      · -- The statement is for another holder.
        have hother : step.holder ≠ some h := by
          intro heq
          rw [heq] at hholder
          simp [hname] at hholder
        have hregister : ∀ ttl, step ≠ .register h ttl := by
          rintro ttl rfl
          exact hother rfl
        have hreleases : step.releases key h = 0 := by
          cases step with
          | release h' counts => exact if_neg fun heq => hother (congrArg some heq)
          | _ => rfl
        obtain ⟨hlive₀, hqueued, hle⟩ := hran.usedBy hcounted.kept.slots hregister hlive key
        have hold := hcounted.backed h key hlive₀
        dsimp only at hqueued hle ⊢
        omega
      · -- Nothing of this store is about the holder.
        have hnone : x.store.registry.heap h = none := by
          have hnames := hcounted.names h
          rw [if_neg hname] at hnames
          by_contra hsome
          rw [if_pos (isSome_iff_ne_none.mpr hsome)] at hnames
          omega
        obtain ⟨hweigh, hqueued⟩ := hcounted.not_named (h := h) (by rw [known, hnone]; rfl)
        have hbacked : x.ledger.weigh (backed h key) = 0 :=
          weigh_eq_zero_of_imp (fun _ => backed_of_counted) hweigh
        have hqueuedAt : x.store.registry.queuedAt h key = 0 := by
          rw [Registry.queued, Multiset.countP_eq_zero] at hqueued
          rw [queuedAt, Multiset.countP_eq_zero]
          exact fun p hp heq => hqueued p hp heq.1
        have hnonneg := hkept.slots.usedBy_nonneg key h
        change (_ + (x.store.registry.queuedAt h key : ℤ)) ≤ _
        rw [hbacked, hqueuedAt]
        simpa using hnonneg

end Sound

lemma Operation.turns (o : Operation) : terms.Turns [] 0 o.code fun _ => 0 := by
  cases o with
  | acquireSlot rounds k => exact turns_acquireSlot rounds k
  | routine rounds => exact turns_routine rounds
  | close => exact turns_close

lemma honours (ttl : ℤ) : (system ttl).Honours terms Sound Audit.ledger .hand Fact.Holds := by
  intro t a c x r x' hx hn hrelies hsound he
  obtain ⟨⟨r', s'⟩, heffect, heq⟩ := map_eq_some_iff.mp he
  obtain ⟨rfl, rfl⟩ := Prod.mk.inj heq
  exact ⟨hx.step hn hrelies hsound heffect, Audit.held_enter_hand hn,
    fun u hu => Audit.held_enter_other hu,
    fun f hf => hf.step hx.counted hx.running hn hsound heffect, learns_holds hrelies heffect⟩

lemma reachable_sound {steps : List QuotaStep} {P : Pool Action Action.Reply Thread Audit}
    (h : (system ttl).Reachable .free (newQuotaStore (QuotaWorld.initial.run steps)) P) :
    Sound P.state ∧
      ∀ t, ThreadSystem.Accounted terms Audit.ledger .hand Fact.Holds t P.state (P.prog t) := by
  have hworld := QuotaWorld.run_sound (w := .initial) QuotaDb.SlotsSound.initial steps
  refine ThreadSystem.Reachable.accounted ⟨.newQuotaStore hworld, fun t => ?_⟩
    (fun _ o => o.turns) (honours ttl) ?_ (fun _ _ => rfl) h
  · change (put (.job 0) {.running} : Custody Place Entry).held (.hand t) = 0
    exact held_put_of_ne Place.noConfusion
  · intro e x x' hx he
    obtain ⟨s₁, hs₁, rfl⟩ := map_eq_some_iff.mp he
    obtain ⟨hsound, hheap⟩ := hx.event hs₁
    refine ⟨hsound, fun _ => rfl, fun f hf => ?_⟩
    cases f with
    | doomed h =>
      simp only [Fact.Holds, known] at hf ⊢
      rwa [hheap]
    | _ => exact hf

/-- The holder of a statement that acquires or releases slots or registers a holder. -/
def Action.statementFor : Action → Option String
  | .registerQuotaHolder h => some h
  | .acquireQuotaSlots h .. => some h
  | .releaseQuotaSlots h _ => some h
  | _ => none

lemma Sound.known_doomed (hx : Sound x) {h : String} (hdoomed : (Fact.doomed h).Holds x) :
    (x.store.registry.heap h).isSome = true ∧ x.store.registry.known h = 0 := by
  rcases hdoomed with ⟨y, hy, hdel⟩ | ⟨-, -, hsome, h0⟩
  · have hknown := (hx.counted.kept.deleting h y hy hdel).2
    exact ⟨by rw [hy]; rfl, by rw [known, hy]; exact hknown⟩
  · exact ⟨hsome, h0⟩

lemma Sound.not_named (hx : Sound x) {h : String} (hdoomed : (Fact.doomed h).Holds x) :
    (∀ e ∈ x.ledger, ¬ e.2.Names h) ∧ ∀ p ∈ x.store.registry.pending, p.1 ≠ h := by
  obtain ⟨hweigh, hqueued⟩ := hx.counted.not_named (hx.known_doomed hdoomed).2
  refine ⟨fun e he => ?_, fun p hp heq => ?_⟩
  · exact not_names_of_counted (weigh_eq_zero.mp hx.counted.sized e he)
      (weigh_eq_zero.mp hweigh e he)
  · exact countP_eq_zero.mp hqueued p hp heq

/-- In every state that callers of `AcquireSlot`, goroutines and callers of `Close` can reach, when
statements may fail after they have taken effect:

* The database counts, for a holder with a live lease, at least the slots that were sent to callers
  and that they have not released.
* A granted slot is on its way, has been sent to a caller that has not given up, or has been
  returned for one that has, and a waiter is granted one slot at most; a thread that has finished
  has nothing on its way; one caller waits for a waiter at most, and one does while a reply is in
  the channel.
* A batch consists of callers of one key and limit in the order of arrival, and a caller has been
  granted a slot if a later one has.
* When a holder is to be deleted, no acquire and no release, no granted slot and no queued release
  names it. -/
theorem slots_never_undercounted {steps : List QuotaStep}
    {P : Pool Action Action.Reply Thread Audit}
    (h : (system ttl).Reachable .free (newQuotaStore (QuotaWorld.initial.run steps)) P) :
    (∀ holder key, P.state.store.registry.live holder = true →
      (P.state.past.handed.countP (fun g => g.holder = holder ∧ g.key = key) : ℤ) -
          P.state.past.released.countP (fun g => g.holder = holder ∧ g.key = key) ≤
        P.state.store.registry.world.db.usedBy key holder) ∧
    ((∀ p, P.state.past.granted.countP p = P.state.ledger.weigh (Entry.brings p) +
        P.state.past.handed.countP p + P.state.past.returned.countP p) ∧
      (∀ p, P.state.past.handed.countP p =
        P.state.ledger.weigh (Entry.holds p) + P.state.past.released.countP p) ∧
      (∀ w, P.state.past.granted.countP (fun g => g.waiter = w) ≤ 1) ∧
      (∀ g ∈ P.state.past.handed, P.state.store.slots.HasAt .answered g.key g.waiter) ∧
      (∀ g ∈ P.state.past.returned, P.state.store.slots.HasAt .abandoned g.key g.waiter) ∧
      (∀ t, P.prog t = none → P.state.ledger.held (.hand t) = 0) ∧
      (∀ w, P.state.ledger.weigh (Entry.awaits w) ≤ 1 ∧
        ((P.state.store.slots.waiter w).reply.isSome = true →
          P.state.ledger.weigh (Entry.awaits w) = 1))) ∧
    (∀ b ∈ P.state.past.batches,
      (∀ w ∈ b.2, (P.state.store.slots.waiter w).key = b.1) ∧
      b.2.Pairwise fun w w' => w < w' ∧ (P.state.past.grants w' → P.state.past.grants w)) ∧
    ∀ t holder next, P.prog t = some (.act (.deleteQuotaHolder holder) next) →
      (∀ e ∈ P.state.ledger, ¬ e.2.Names holder) ∧
      (∀ p ∈ P.state.store.registry.pending, p.1 ≠ holder) ∧
      ∀ u a next', P.prog u = some (.act a next') → a.statementFor ≠ some holder := by
  obtain ⟨hx, hacc⟩ := reachable_sound h
  refine ⟨fun holder key hlive => ?_, ⟨hx.tallied.granted, hx.tallied.handed, fun w => ?_,
    hx.served.handed, hx.served.returned, fun t ht => ?_, fun w => ⟨hx.served.alone w, ?_⟩⟩,
    fun b hb => ⟨?_, ?_⟩, fun t holder next ht => ?_⟩
  · have hbacked := hx.counted.backed holder key hlive
    have hhanded := hx.tallied.handed fun g => g.holder = holder ∧ g.key = key
    have hle : P.state.ledger.weigh (holds fun g => g.holder = holder ∧ g.key = key) ≤
        P.state.ledger.weigh (backed holder key) := by
      refine weigh_mono (fun e => ?_) _
      cases e with
      | slot phase h key w => cases phase <;> simp [holds, backed]
      | _ => exact Nat.zero_le _
    omega
  · have honce := granted_once hx.queued hx.tallied w
    omega
  · have hnothing := hacc t
    rwa [ht] at hnothing
  · intro hreply
    have hawaits := hx.served.awaits w
    have halone := hx.served.alone w
    simp only [Batcher.due, hreply, if_true] at hawaits
    omega
  · exact fun w hw => ((hx.queued.batch b hb).2 w hw).2
  · exact (hx.queued.batch b hb).1.and (hx.ordered b hb)
  · have hnext := hacc t
    rw [ht] at hnext
    have hdoomed := hnext.next.2.1 (.doomed holder) mem_cons_self
    obtain ⟨hledger, hpending⟩ := hx.not_named hdoomed
    refine ⟨hledger, hpending, fun u a next' hu => ?_⟩
    have hother := hacc u
    rw [hu] at hother
    have hneeds := hother.next.1
    have hmem : ∀ e ∈ a.needs, ¬ e.Names holder := fun e he =>
      hledger _ (mem_held.mp (mem_of_le hneeds he))
    cases a with
    | registerQuotaHolder h' =>
      intro heq
      obtain rfl := some.inj heq
      have hsome := (hx.known_doomed hdoomed).1
      rw [hx.counted.fresh hneeds] at hsome
      cases hsome
    | acquireQuotaSlots h' key batch limit =>
      intro heq
      obtain rfl := some.inj heq
      exact hmem (.acquiring h') (by simp [Action.needs]) rfl
    | releaseQuotaSlots h' counts =>
      intro heq
      obtain rfl := Option.some.inj heq
      exact hmem (.sending h' counts) (Multiset.mem_singleton_self _) rfl
    | _ => rintro ⟨⟩

/-- Three callers of a key with three slots wait, and the second gives up.  The goroutine of the key
registers a holder, acquires the slots in one batch, sends two and returns the third.  The last
caller releases its slot, and another goroutine sends both releases. -/
def batchOfThree : List (Label Thread Choice Operation Event) :=
  ([0, 1, 2].flatMap fun i => [.start (.caller i) (.acquireSlot 3 ⟨"k", 3⟩),
    .act (.caller i) {}, .act (.caller i) {}]) ++
  [.act (.caller 1) { ended := true }, .act (.caller 1) {},
    .start (.routine 1) (.routine 3)] ++
  List.replicate 5 (.act (.routine 1) {}) ++ [.act (.routine 1) { owner := .ok "h" }] ++
  List.replicate 13 (.act (.routine 1) {}) ++
  [.act (.caller 2) {}, .act (.caller 2) {}, .start (.routine 2) (.routine 3),
    .act (.routine 2) {}, .act (.routine 2) { rows := [("h", [("k", 2)])] },
    .act (.routine 2) {}, .act (.routine 2) {}]

def afterBatch : Pool Action Action.Reply Thread Audit :=
  (system 1000000000).run (ThreadSystem.idle (newQuotaStore (QuotaWorld.initial.run [])))
    batchOfThree

/-- The slot that has been sent and not released is counted. -/
theorem batchOfThree_counted :
    afterBatch.state.past.batches = [(⟨"k", 3⟩, [0, 1, 2])] ∧
    afterBatch.state.past.handed = [⟨"h", "k", 2⟩, ⟨"h", "k", 0⟩] ∧
    afterBatch.state.past.returned = [⟨"h", "k", 1⟩] ∧
    afterBatch.state.past.released = [⟨"h", "k", 2⟩] ∧
    1 ≤ afterBatch.state.store.registry.world.db.usedBy "k" "h" := by
  have hhanded : afterBatch.state.past.handed = [⟨"h", "k", 2⟩, ⟨"h", "k", 0⟩] := by
    decide +kernel
  have hreleased : afterBatch.state.past.released = [⟨"h", "k", 2⟩] := by decide +kernel
  have hcounted := (slots_never_undercounted (P := afterBatch)
    (ThreadSystem.reachable_run _ _ batchOfThree)).1 "h" "k" (by decide +kernel)
  rw [hhanded, hreleased] at hcounted
  exact ⟨by decide +kernel, hhanded, by decide +kernel, hreleased, hcounted⟩

end LlmdAsync.SqlFlow.QuotaStore
