import LlmdAsync.SqlFlow.QuotaWaiters

/-!
# Replies of the quota store

The entries of the ledger that name a waiter agree with its key and its state, and the channel of a
waiter has what the ledger says.  So a thread finds the reply it is to receive.  A slot is sent to a
waiter that has been answered, and returned for one that has given up; and as long as a reply has
not been received, exactly one caller waits for it.
-/

namespace LlmdAsync.SqlFlow.QuotaStore

open SqlQueue Custody List Multiset Entry Action AdmitReply Batcher Function

variable {ttl : ℤ} {t : Thread} {c : Choice} {x : Audit} {s s' : State} {a : Action} {r : a.Reply}

attribute [local simp] Action.needs Action.collects Action.yields Action.deposits History.record

/-! ### Entries about waiters -/

/-- What the ledger says of waiters is true. -/
def Entry.Fits (s : Batcher) : Entry → Prop
  | .waiting key w => s.Has key w
  | .duty key w => s.Has key w
  | .refused key w => s.Has key w
  | .replying key w => s.HasAt .answered key w
  | .won _ key ws => ∀ w ∈ ws, s.Has key w
  | .slot .ready _ key w => s.Has key w
  | .slot .giving _ key w => s.HasAt .answered key w
  | .slot .giveBack _ key w => s.HasAt .abandoned key w
  | .slot .held _ key w => s.HasAt .answered key w
  | _ => True

lemma Entry.Fits.grows {s s' : Batcher} (h : s.Grows s') {e : Entry} (he : e.Fits s) :
    e.Fits s' := by
  cases e with
  | waiting key w | duty key w | refused key w => exact h.has he
  | replying key w => exact h.hasAt WaiterState.noConfusion he
  | won h₀ key ws => exact fun w hw => h.has (he w hw)
  | slot phase h₀ key w =>
    cases phase with
    | ready => exact h.has he
    | giving | giveBack | held => exact h.hasAt WaiterState.noConfusion he
  | _ => trivial

namespace AdmitReply

variable {s : Batcher} {reply : AdmitReply} {key : String} {w : ℕ}

lemma has_of_claim (h : ∀ e ∈ reply.claim key w, e.Fits s) : s.Has key w := by
  obtain ⟨ok, holder, err⟩ := reply
  cases ok <;> cases holder <;> cases err <;> exact h _ (Multiset.mem_singleton_self _)

lemma hasAt_of_right (h : ∀ e ∈ reply.right key w, e.Fits s) : s.HasAt .answered key w := by
  obtain ⟨ok, holder, err⟩ := reply
  cases ok <;> cases holder <;> exact h _ (Multiset.mem_singleton_self _)

lemma fits_right (h : s.HasAt .answered key w) : ∀ e ∈ reply.right key w, e.Fits s := by
  intro e he
  obtain ⟨ok, holder, err⟩ := reply
  cases ok <;> cases holder <;> obtain rfl := Multiset.mem_singleton.mp he <;> exact h

lemma fits_slot {phase : Phase} (h : ∀ h, (Entry.slot phase h key w).Fits s) :
    ∀ e ∈ reply.slot phase key w, e.Fits s := by
  intro e he
  obtain ⟨ok, holder, err⟩ := reply
  cases ok with
  | false => exact absurd he (notMem_zero e)
  | true =>
    cases holder with
    | none => exact absurd he (Multiset.notMem_zero e)
    | some h₀ =>
      obtain rfl := Multiset.mem_singleton.mp he
      exact h h₀

end AdmitReply

lemma mem_each {entry : ℕ → Entry} {ws : List ℕ} {e : Entry} :
    e ∈ each entry ws ↔ ∃ w ∈ ws, entry w = e := by
  simp [each]

lemma fits_registry {s : Batcher} (ha : a.part = .registry ∨ a.part = .life)
    (hneeds : ∀ e ∈ a.needs, e.Fits s) : ∀ e ∈ a.yields r, e.Fits s := by
  cases a with
  | settle h n why =>
    cases why with
    | granted key ws =>
      intro e he
      obtain ⟨w, hw, rfl⟩ := mem_each.mp he
      exact hneeds (.won h key ws) (Multiset.mem_singleton_self _) w hw
    | _ => exact fun e he => absurd he (Multiset.notMem_zero e)
  | acquireQuotaSlots h key batch limit =>
    have hduty : ∀ w ∈ batch, s.Has key w := fun w hw =>
      hneeds (.duty key w) (Multiset.mem_cons_of_mem (mem_each.mpr ⟨w, hw, rfl⟩))
    cases r with
    | error e => exact hneeds
    | ok granted =>
      intro e he
      simp only [yields, Multiset.mem_cons] at he
      rcases he with rfl | he
      · exact fun w hw => hduty w (mem_of_mem_take hw)
      · obtain ⟨w, hw, rfl⟩ := mem_each.mp he
        exact hduty w (List.mem_of_mem_drop hw)
  | countCurrent | newOwner | registerQuotaHolder name =>
    cases r <;> intro e he <;> simp at he <;> rcases he with rfl | rfl <;> trivial
  | insertHolder name started | releaseQuotaSlots h counts | begin =>
    intro e he
    simp at he
    rcases he with rfl | rfl <;> trivial
  | takePending =>
    intro e he
    simp only [yields, Multiset.mem_coe, List.mem_map] at he
    obtain ⟨row, -, rfl⟩ := he
    trivial
  | enqueue k | select key w | abandon key w | receive key w | takeBatch k | answer key w reply
  | send key w reply => rcases ha with ha | ha <;> cases ha
  | _ => exact fun e he => absurd he (Multiset.notMem_zero e)

lemma Batcher.Did.fits_yields {s s' : Batcher} (hd : Did s a r s')
    (hneeds : ∀ e ∈ a.needs, e.Fits s) (hcollects : ∀ e ∈ a.collects r, e.Fits s)
    (hqueue : ∀ k, a = .takeBatch k → ∀ w ∈ (s.queues k).getD [], s.Has k.key w)
    (hgone : ∀ key w reply, a = .answer key w reply → (s.waiter w).state ≠ .pending →
      (s.waiter w).state = .abandoned) : ∀ e ∈ a.yields r, e.Fits s' := by
  have hgrows := hd.grows
  cases hd with
  | other r ha => exact fits_registry ha hneeds
  | closed k => exact fun e he => absurd he (Multiset.notMem_zero e)
  | joined k =>
    intro e he
    obtain rfl := Multiset.mem_singleton.mp he
    exact ⟨Nat.lt_succ_self _, by simp [join]⟩
  | gaveUp key w | notAbandoned key w h => exact hneeds
  | selected key w reply h | received key w reply h =>
    exact fun e he => (hcollects e he).grows hgrows
  | abandoned key w h | sent key w reply h => exact fun e he => absurd he (notMem_zero e)
  | taken k =>
    intro e he
    obtain ⟨w, hw, rfl⟩ := mem_each.mp he
    exact hqueue k rfl w hw
  | answered key w reply h =>
    refine fits_right ⟨hgrows.has (has_of_claim hneeds), ?_⟩
    simp [setWaiter]
  | notAnswered key w reply h =>
    have hhas := has_of_claim hneeds
    exact fits_slot fun _ => ⟨hhas, hgone key w reply rfl h⟩

lemma Batcher.Did.fits_deposits {s₀ : State} {s s' : Batcher} (hd : Did s a r s')
    (hneeds : ∀ e ∈ a.needs, e.Fits s) : ∀ e ∈ a.deposits s₀ r, e.Fits s' := by
  intro e he
  have hgrows := hd.grows
  cases a with
  | enqueue k =>
    cases r with
    | none => exact absurd he (Multiset.notMem_zero e)
    | some w =>
      simp only [deposits] at he
      split at he
      · obtain rfl := Multiset.mem_singleton.mp he
        trivial
      · exact absurd he (Multiset.notMem_zero e)
  | spawn job =>
    cases r with
    | false => exact absurd he (Multiset.notMem_zero e)
    | true =>
      obtain rfl := Multiset.mem_singleton.mp he
      trivial
  | send key w reply =>
    have hhas := hasAt_of_right hneeds
    have hheld : ∀ h, (slot .held h key w).Fits s := fun _ => hhas
    exact (fits_slot hheld e he).grows hgrows
  | select key w | acquireQuotaSlots h key batch limit =>
    cases r <;> exact absurd he (Multiset.notMem_zero e)
  | _ => exact absurd he (Multiset.notMem_zero e)

/-! ### Replies and callers -/

namespace Entry

/-- How many replies to a waiter are to be sent. -/
def comes (w : ℕ) : Entry → ℕ
  | .replying _ w' => if w' = w then 1 else 0
  | .slot .giving _ _ w' => if w' = w then 1 else 0
  | _ => 0

end Entry

/-- A weight of callers that wait and of replies that are to be sent. -/
structure Meeting (f : Entry → ℕ) : Prop where
  running : f .running = 0
  naming : ∀ n, f (.naming n) = 0
  duty : ∀ key w, f (.duty key w) = 0
  refused : ∀ key w, f (.refused key w) = 0
  acquiring : ∀ h, f (.acquiring h) = 0
  won : ∀ h key ws, f (.won h key ws) = 0
  slot : ∀ p h key w, p ≠ .giving → f (.slot p h key w) = 0
  sending : ∀ h counts, f (.sending h counts) = 0
  sent : ∀ h counts, f (.sent h counts) = 0

namespace Meeting

lemma awaits (w : ℕ) : Meeting (awaits w) :=
  ⟨rfl, fun _ => rfl, fun _ _ => rfl, fun _ _ => rfl, fun _ => rfl, fun _ _ _ => rfl,
    fun _ _ _ _ _ => rfl, fun _ _ => rfl, fun _ _ => rfl⟩

lemma comes (w : ℕ) : Meeting (comes w) := by
  refine ⟨rfl, fun _ => rfl, fun _ _ => rfl, fun _ _ => rfl, fun _ => rfl, fun _ _ _ => rfl,
    fun p _ _ _ hp => ?_, fun _ _ => rfl, fun _ _ => rfl⟩
  cases p with
  | giving => exact absurd rfl hp
  | _ => rfl

lemma idle {f : Entry → ℕ} (hf : Meeting f) (ha : a.part = .registry ∨ a.part = .life)
    (s : State) : load f a.needs = 0 ∧ load f (a.yields r) = 0 ∧ load f (a.collects r) = 0 ∧
      load f (a.deposits s r) = 0 := by
  cases a with
  | settle h n why =>
    cases why <;>
      simp [Settled.entry, Settled.rest, load_each, hf.acquiring, hf.won, hf.slot, hf.sent]
  | acquireQuotaSlots h key batch limit =>
    cases r <;> simp [load_each, hf.acquiring, hf.won, hf.duty, hf.refused]
  | queueRelease h key w by_ =>
    cases by_ <;> simp [Releaser.phase, hf.slot]
  | countCurrent | newOwner | registerQuotaHolder name | spawn job =>
    cases r <;> simp [hf.running, hf.acquiring, hf.naming]
  | insertHolder name started | releaseQuotaSlots h counts | begin | exit =>
    simp [hf.running, hf.acquiring, hf.naming, hf.sending, hf.sent]
  | takePending =>
    simp [comp_def, hf.sending]
  | enqueue k | select key w | abandon key w | receive key w | takeBatch k | answer key w reply
  | send key w reply => rcases ha with ha | ha <;> cases ha
  | _ => exact ⟨rfl, rfl, rfl, rfl⟩

end Meeting

/-- How many callers are to get a reply that has not been made, or is in the channel. -/
def Batcher.due (s : Batcher) (w : ℕ) : ℕ :=
  (if w < s.nextWaiter ∧ (s.waiter w).state = .pending then 1 else 0) +
    if (s.waiter w).reply.isSome then 1 else 0

lemma AdmitReply.load_comes (reply : AdmitReply) (key : String) (w w' : ℕ) :
    load (comes w') (reply.right key w) = (if w = w' then 1 else 0) ∧
    load (comes w') (reply.claim key w) = 0 ∧
    load (comes w') (reply.slot .held key w) = 0 ∧
    load (comes w') (reply.slot .giveBack key w) = 0 ∧
    load (awaits w') (reply.right key w) = 0 ∧
    load (awaits w') (reply.claim key w) = 0 ∧
    load (awaits w') (reply.slot .held key w) = 0 ∧
    load (awaits w') (reply.slot .giveBack key w) = 0 := by
  obtain ⟨ok, holder, err⟩ := reply
  cases ok <;> cases holder <;> cases err <;>
    simp [slot, claim, right, comes, awaits]

lemma Batcher.Did.due {s s' : Batcher} (hd : Did s a r s') (hneeds : ∀ e ∈ a.needs, e.Fits s)
    (hunborn : ∀ w, s.nextWaiter ≤ w → (s.waiter w).reply = none) (s₀ : State) (w : ℕ) :
    load (awaits w) (a.yields r) + load (awaits w) (a.deposits s₀ r) +
        load (comes w) a.needs + load (comes w) (a.collects r) + s.due w =
      load (awaits w) a.needs + load (awaits w) (a.collects r) +
        load (comes w) (a.yields r) + load (comes w) (a.deposits s₀ r) + s'.due w := by
  have hreply := fun reply key w' => load_comes reply key w' w
  cases hd with
  | other r ha =>
    obtain ⟨hn, hy, hc, hd⟩ := (Meeting.awaits w).idle (r := r) ha s₀
    obtain ⟨hn', hy', hc', hd'⟩ := (Meeting.comes w).idle (r := r) ha s₀
    omega
  | closed k => rfl
  | joined k =>
    have hdeposits : ∀ f : Entry → ℕ, f .running = 0 →
        load f ((enqueue k).deposits s₀ (some s.nextWaiter)) = 0 := by
      intro f hf
      simp only [deposits]
      split <;> simp [hf]
    rw [hdeposits _ rfl, hdeposits _ rfl]
    rcases eq_or_ne w s.nextWaiter with rfl | hne
    · simp [awaits, comes, Batcher.due, Batcher.join, hunborn]
    · have hlt : w < s.nextWaiter + 1 ↔ w < s.nextWaiter := by omega
      simp [awaits, comes, Batcher.due, Batcher.join, hne, hne.symm, hlt]
  | gaveUp key w' | notAbandoned key w' h =>
    simp [comes]
  | selected key w' reply h | received key w' reply h =>
    simp only [needs, yields, collects, deposits, hreply,
      load_singleton, load_zero, awaits, comes, Batcher.due]
    rcases eq_or_ne w w' with rfl | hne
    · simp [Batcher.received, Batcher.setWaiter, h]
      omega
    · simp [Batcher.received, Batcher.setWaiter, hne, hne.symm]
  | abandoned key w' h =>
    have hlt : w' < s.nextWaiter := (hneeds _ (Multiset.mem_singleton_self _) : s.Has key w').1
    simp only [needs, yields, collects, deposits,
      load_singleton, load_zero, awaits, comes, Batcher.due]
    rcases eq_or_ne w w' with rfl | hne
    · simp [Batcher.setWaiter, h, hlt]
    · simp [Batcher.setWaiter, hne, hne.symm]
  | taken k =>
    simp [load_each, awaits, comes, Batcher.due]
  | answered key w' reply h =>
    have hlt : w' < s.nextWaiter := (has_of_claim hneeds).1
    simp only [needs, yields, collects, deposits, hreply, load_zero, Batcher.due]
    rcases eq_or_ne w w' with rfl | hne
    · simp [Batcher.setWaiter, h, hlt]
    · simp [Batcher.setWaiter, hne, hne.symm]
  | notAnswered key w' reply h =>
    simp [hreply]
  | sent key w' reply h =>
    simp only [needs, yields, collects, deposits, hreply, load_zero, Batcher.due]
    rcases eq_or_ne w w' with rfl | hne
    · simp [Batcher.setWaiter, h]
      omega
    · simp [Batcher.setWaiter, hne, hne.symm]

lemma Batcher.Did.awaits {s s' : Batcher} (hd : Did s a r s') (s₀ : State) (w : ℕ) :
    load (awaits w) (a.yields r) + load (awaits w) (a.deposits s₀ r) ≤
      load (awaits w) a.needs + if w = s.nextWaiter then 1 else 0 := by
  have hreply := fun reply key w' => load_comes reply key w' w
  cases hd with
  | other r ha =>
    obtain ⟨-, hy, -, hd⟩ := (Meeting.awaits w).idle (r := r) ha s₀
    omega
  | joined k =>
    have hdeposits : load (awaits w)
        ((enqueue k).deposits s₀ (some s.nextWaiter)) = 0 := by
      simp only [deposits]
      split <;> simp [awaits]
    rw [hdeposits]
    simp [awaits, eq_comm]
  | closed k => exact Nat.zero_le _
  | taken k => simp [load_each, awaits]
  | gaveUp key w' | notAbandoned key w' h | abandoned key w' h =>
    simp
  | selected key w' reply h | received key w' reply h | answered key w' reply h
  | notAnswered key w' reply h | sent key w' reply h =>
    simp [hreply]

/-- What is in the channel of a waiter. -/
def Waiter.content (y : Waiter) (w : ℕ) : Multiset Entry :=
  match y.reply with
  | some reply => reply.slot .held y.key.key w
  | none => 0

/-- What is known of waiters. -/
structure Served (x : Audit) : Prop where
  fits : ∀ e ∈ x.ledger, e.2.Fits x.store.slots
  channel : ∀ w, x.ledger.held (.reply w) = (x.store.slots.waiter w).content w
  unborn : ∀ w, x.store.slots.nextWaiter ≤ w → (x.store.slots.waiter w).reply = none
  /-- The turn of a waiter that has been answered has come. -/
  answered : ∀ w, (x.store.slots.waiter w).state = .answered →
    0 < x.past.decided.countP fun d => d.1 = w
  granted : ∀ g ∈ x.past.granted, x.store.slots.Has g.key g.waiter
  handed : ∀ g ∈ x.past.handed, x.store.slots.HasAt .answered g.key g.waiter
  returned : ∀ g ∈ x.past.returned, x.store.slots.HasAt .abandoned g.key g.waiter
  /-- Callers wait for replies. -/
  awaits : ∀ w, x.ledger.weigh (Entry.awaits w) =
    x.ledger.weigh (Entry.comes w) + x.store.slots.due w
  /-- One caller waits for a waiter. -/
  alone : ∀ w, x.ledger.weigh (Entry.awaits w) ≤ 1

namespace Served

lemma fits_needs (hx : Served x) {m : Multiset Entry} {q : Place} (hm : m ≤ x.ledger.held q) :
    ∀ e ∈ m, e.Fits x.store.slots :=
  fun _ he => hx.fits _ (mem_held.mp (mem_of_le hm he))

lemma collects_le (hx : Served x) (hr : Running x) (hn : a.needs ≤ x.ledger.held (.hand t))
    (he : effect ttl t a c x.store = some (r, s')) :
    a.collects r ≤ x.ledger.held (site x.store t a) := by
  have hneeds := hx.fits_needs hn
  have hreply : ∀ {key w reply}, x.store.slots.Has key w →
      (x.store.slots.waiter w).reply = some reply →
      reply.slot .held key w ≤ x.ledger.held (.reply w) := by
    rintro key w reply ⟨-, rfl⟩ hreply
    rw [hx.channel, Waiter.content, hreply]
  cases a with
  | select key w =>
    have hd := effect_did he
    generalize s'.slots = slots at hd
    cases hd with
    | other r ha => rcases ha with ha | ha <;> cases ha
    | gaveUp => exact zero_le _
    | selected key w reply h => exact hreply (hneeds _ (Multiset.mem_singleton_self _)) h
  | receive key w =>
    have hd := effect_did he
    generalize s'.slots = slots at hd
    cases hd with
    | other r ha => rcases ha with ha | ha <;> cases ha
    | received key w reply h => exact hreply (hneeds _ (Multiset.mem_singleton_self _)) h
  | begin =>
    obtain ⟨⟨job, s₁⟩, hs₁, -⟩ := Option.map_eq_some_iff.mp he
    cases t with
    | routine n =>
      obtain ⟨job', hjob, -⟩ := Option.map_eq_some_iff.mp hs₁
      rw [site, hr.jobs n, hjob]
      exact le_refl _
    | caller i | closer i => exact nomatch hs₁
  | _ => exact zero_le _

lemma gone (hx : Served x) (hq : Queued x) (hy : Tallied x)
    (hn : a.needs ≤ x.ledger.held (.hand t)) (key : String) (w : ℕ) (reply : AdmitReply)
    (ha : a = .answer key w reply) (hstate : (x.store.slots.waiter w).state ≠ .pending) :
    (x.store.slots.waiter w).state = .abandoned := by
  subst ha
  cases hs : (x.store.slots.waiter w).state with
  | pending => exact absurd hs hstate
  | abandoned => rfl
  | answered =>
    -- Its turn would come for the second time.
    have hdecided := hx.answered w hs
    have hload := load_le_weigh hn (opens w)
    have hopens := hy.opens w
    have honce : x.past.batched.countP (fun w' => w' = w) ≤ 1 := by
      have hcount := nodup_iff_count_le_one.mp hq.nodup w
      rwa [count_eq_countP] at hcount
    rw [needs, (load_opens reply key w w).1, if_pos rfl] at hload
    omega

lemma held_reply {w : ℕ} (hcollects : a.collects r = 0 ∨ site x.store t a ≠ .reply w)
    (hdeposits : a.deposits x.store r = 0 ∨ site x.store t a ≠ .reply w) :
    (x.enter t a r).held (.reply w) = x.ledger.held (.reply w) := by
  rcases eq_or_ne (site x.store t a) (.reply w) with hsite | hsite
  · exact Audit.held_enter_idle (hcollects.resolve_right (absurd hsite))
      (hdeposits.resolve_right (absurd hsite)) Place.noConfusion
  · exact Audit.held_enter_elsewhere Place.noConfusion hsite.symm

lemma step_channel (hx : Served x) (hn : a.needs ≤ x.ledger.held (.hand t))
    (hc : a.collects r ≤ x.ledger.held (site x.store t a))
    (hd : Batcher.Did x.store.slots a r s'.slots) (w : ℕ) :
    (x.enter t a r).held (.reply w) = (s'.slots.waiter w).content w := by
  have hneeds := hx.fits_needs hn
  generalize s'.slots = slots at hd ⊢
  cases hd with
  | other r ha =>
    refine (held_reply (.inr ?_) (.inr ?_)).trans (hx.channel w) <;>
      cases a <;> first | exact Place.noConfusion | (cases t <;> exact Place.noConfusion) |
        (rcases ha with ha | ha <;> cases ha)
  | closed k => exact (held_reply (.inl rfl) (.inl rfl)).trans (hx.channel w)
  | joined k =>
    refine (held_reply (.inl rfl) (.inr Place.noConfusion)).trans ((hx.channel w).trans ?_)
    rcases eq_or_ne w x.store.slots.nextWaiter with rfl | hne
    · simp [Waiter.content, Batcher.join, hx.unborn]
    · simp [Batcher.join, hne]
  | gaveUp key w' | notAbandoned key w' h | taken k | notAnswered key w' reply h =>
    exact (held_reply (.inl rfl) (.inl rfl)).trans (hx.channel w)
  | abandoned key w' h | answered key w' reply h =>
    refine (held_reply (.inl rfl) (.inl rfl)).trans ((hx.channel w).trans ?_)
    rcases eq_or_ne w w' with rfl | hne
    · simp [setWaiter, Waiter.content]
    · simp [setWaiter, hne]
  | selected key w' reply h | received key w' reply h =>
    rcases eq_or_ne w w' with rfl | hne
    · obtain ⟨-, rfl⟩ : x.store.slots.Has key w := hneeds _ (Multiset.mem_singleton_self _)
      refine (Audit.held_enter_site hc).trans ?_
      rw [site, hx.channel]
      simp only [collects, deposits, Waiter.content, h, received, setWaiter, update_self, add_zero]
      exact Multiset.le_zero.mp (Multiset.sub_le_iff_le_add.mpr (by simp))
    · have hsite : Place.reply w' ≠ Place.reply w := fun heq => hne (Place.reply.inj heq).symm
      refine Eq.trans ?_ ((hx.channel w).trans ?_)
      · exact Audit.held_enter_elsewhere Place.noConfusion hsite.symm
      · simp [received, setWaiter, hne]
  | sent key w' reply h =>
    rcases eq_or_ne w w' with rfl | hne
    · obtain ⟨⟨-, rfl⟩, -⟩ := hasAt_of_right hneeds
      refine (Audit.held_enter_site hc).trans ?_
      rw [site, hx.channel]
      simp [Waiter.content, h, setWaiter]
    · have hsite : Place.reply w' ≠ Place.reply w := fun heq => hne (Place.reply.inj heq).symm
      refine Eq.trans ?_ ((hx.channel w).trans ?_)
      · exact Audit.held_enter_elsewhere Place.noConfusion hsite.symm
      · simp [setWaiter, hne]

end Served

/-! ### The history of an action -/

lemma AdmitReply.mem_grant {reply : AdmitReply} {key : String} {w : ℕ} {g : Grant}
    (hg : g ∈ reply.grant key w) : g.key = key ∧ g.waiter = w := by
  obtain ⟨ok, holder, err⟩ := reply
  cases ok <;> cases holder <;> simp [grant] at hg
  subst hg
  exact ⟨rfl, rfl⟩

namespace Served

lemma step_history (hx : Served x) (hn : a.needs ≤ x.ledger.held (.hand t))
    (hgrows : x.store.slots.Grows s'.slots) :
    (∀ g ∈ (x.past.record a r).granted, s'.slots.Has g.key g.waiter) ∧
    (∀ g ∈ (x.past.record a r).handed, s'.slots.HasAt .answered g.key g.waiter) ∧
    ∀ g ∈ (x.past.record a r).returned, s'.slots.HasAt .abandoned g.key g.waiter := by
  have hneeds := hx.fits_needs hn
  have hgranted := fun g hg => hgrows.has (hx.granted g hg)
  have hhanded := fun g hg => hgrows.hasAt WaiterState.noConfusion (hx.handed g hg)
  have hreturned := fun g hg => hgrows.hasAt WaiterState.noConfusion (hx.returned g hg)
  cases a with
  | acquireQuotaSlots h key batch limit =>
    cases r with
    | error e => exact ⟨hgranted, hhanded, hreturned⟩
    | ok granted =>
      refine ⟨fun g hg => ?_, hhanded, hreturned⟩
      rcases mem_append.mp hg with hg | hg
      · obtain ⟨w, hw, rfl⟩ := mem_map.mp hg
        have hmem : .duty key w ∈ each (.duty key) batch :=
          mem_each.mpr ⟨w, mem_of_mem_take hw, rfl⟩
        exact hgrows.has (hneeds (.duty key w) (mem_cons_of_mem hmem))
      · exact hgranted g hg
  | send key w reply =>
    refine ⟨hgranted, fun g hg => ?_, hreturned⟩
    rcases mem_append.mp hg with hg | hg
    · obtain ⟨rfl, rfl⟩ := mem_grant hg
      exact hgrows.hasAt WaiterState.noConfusion (hasAt_of_right hneeds)
    · exact hhanded g hg
  | queueRelease h key w by_ =>
    cases by_ with
    | caller => exact ⟨hgranted, hhanded, hreturned⟩
    | flush =>
      refine ⟨hgranted, hhanded, fun g hg => ?_⟩
      rcases mem_cons.mp hg with rfl | hg
      · exact hgrows.hasAt WaiterState.noConfusion (hneeds _ (Multiset.mem_singleton_self _))
      · exact hreturned g hg
  | _ => exact ⟨hgranted, hhanded, hreturned⟩

lemma step_answered (hx : Served x) (hd : Batcher.Did x.store.slots a r s'.slots) (w : ℕ)
    (hw : (s'.slots.waiter w).state = .answered) :
    0 < (x.past.record a r).decided.countP fun d => d.1 = w := by
  have hkeep : x.past.decided.countP (fun d => d.1 = w) ≤
      (x.past.record a r).decided.countP fun d => d.1 = w := by
    cases a with
    | answer key w' reply => exact (sublist_cons_self _ _).countP_le
    | acquireQuotaSlots h key batch limit => cases r <;> exact le_refl _
    | queueRelease h key w by_ => cases by_ <;> exact le_refl _
    | _ => exact le_refl _
  by_cases hold : (x.store.slots.waiter w).state = .answered
  · exact (hx.answered w hold).trans_le hkeep
  · generalize s'.slots = slots at hd hw
    cases hd with
    | answered key w' reply h =>
      rcases eq_or_ne w w' with rfl | hne
      · simp
      · simp [setWaiter, hne] at hw
        exact absurd hw hold
    | joined k =>
      rcases eq_or_ne w x.store.slots.nextWaiter with rfl | hne
      · simp [Batcher.join] at hw
      · simp [Batcher.join, hne] at hw
        exact absurd hw hold
    | selected key w' reply h | received key w' reply h | sent key w' reply h =>
      rcases eq_or_ne w w' with rfl | hne
      · simp [setWaiter, received] at hw
        exact absurd hw hold
      · simp [setWaiter, received, hne] at hw
        exact absurd hw hold
    | abandoned key w' h =>
      rcases eq_or_ne w w' with rfl | hne
      · simp [setWaiter] at hw
      · simp [setWaiter, hne] at hw
        exact absurd hw hold
    | _ => exact absurd hw hold

lemma step_unborn (hx : Served x) (hn : a.needs ≤ x.ledger.held (.hand t))
    (hd : Batcher.Did x.store.slots a r s'.slots) (w : ℕ) (hw : s'.slots.nextWaiter ≤ w) :
    (s'.slots.waiter w).reply = none := by
  have hneeds := hx.fits_needs hn
  generalize s'.slots = slots at hd hw
  cases hd with
  | joined k =>
    have hlt : x.store.slots.nextWaiter < w := hw
    simpa [Batcher.join, hlt.ne'] using hx.unborn w hlt.le
  | sent key w' reply h =>
    have hlt := (hasAt_of_right hneeds).1.1
    have hne : w ≠ w' := (hlt.trans_le hw).ne'
    simpa [setWaiter, hne] using hx.unborn w hw
  | selected key w' reply h | received key w' reply h =>
    rcases eq_or_ne w w' with rfl | hne
    · simp [setWaiter, received]
    · simpa [setWaiter, received, hne] using hx.unborn w hw
  | abandoned key w' h | answered key w' reply h =>
    rcases eq_or_ne w w' with rfl | hne
    · simpa [setWaiter] using hx.unborn w hw
    · simpa [setWaiter, hne] using hx.unborn w hw
  | _ => exact hx.unborn w hw

lemma awaits_next (hx : Served x) :
    x.ledger.weigh (Entry.awaits x.store.slots.nextWaiter) = 0 := by
  have hcomes : x.ledger.weigh (comes x.store.slots.nextWaiter) = 0 := by
    refine weigh_eq_zero.mpr fun e he => ?_
    have hfits := hx.fits e he
    generalize e.2 = entry at hfits
    cases entry with
    | replying key w => exact if_neg hfits.1.1.ne
    | slot phase h key w =>
      cases phase with
      | giving => exact if_neg hfits.1.1.ne
      | _ => rfl
    | _ => rfl
  have hdue : x.store.slots.due x.store.slots.nextWaiter = 0 := by
    simp [due, hx.unborn]
  rw [hx.awaits, hcomes, hdue]

lemma step (hx : Served x) (hq : Queued x) (hy : Tallied x) (hn : a.needs ≤ x.ledger.held (.hand t))
    (hc : a.collects r ≤ x.ledger.held (site x.store t a))
    (he : effect ttl t a c x.store = some (r, s')) :
    Served ⟨s', x.enter t a r, x.past.record a r⟩ := by
  have hd := effect_did he
  have hneeds := hx.fits_needs hn
  obtain ⟨hgranted, hhanded, hreturned⟩ := hx.step_history (r := r) hn hd.grows
  have hdue : ∀ w, (x.enter t a r).weigh (Entry.awaits w) =
      (x.enter t a r).weigh (Entry.comes w) + s'.slots.due w := by
    intro w
    have hawaits := x.weigh_enter hn hc (Entry.awaits w)
    have hcomes := x.weigh_enter hn hc (Entry.comes w)
    have hbalance := hd.due hneeds hx.unborn x.store w
    have hold := hx.awaits w
    omega
  refine ⟨fun e hmem => ?_, hx.step_channel hn hc hd, hx.step_unborn hn hd, hx.step_answered hd,
    hgranted, hhanded, hreturned, hdue, fun w => ?_⟩
  · rcases x.mem_enter hmem with hmem | hmem | hmem
    · exact (hx.fits e hmem).grows hd.grows
    · refine hd.fits_yields hneeds (hx.fits_needs hc) ?_ (hx.gone hq hy hn) _ hmem
      rintro k rfl w hw
      obtain ⟨hlt, hkey, -⟩ := (hq.getD k).2 w hw
      exact ⟨hlt, congrArg SlotKey.key hkey⟩
    · exact hd.fits_deposits hneeds _ hmem
  · have hawaits := x.weigh_enter hn hc (Entry.awaits w)
    have hnew := hd.awaits x.store w
    have hold := hx.alone w
    have hnext := hx.awaits_next
    dsimp only
    split at hnew
    next heq =>
      rw [← heq] at hnext
      have hload := load_le_weigh hn (Entry.awaits w)
      omega
    · omega

end Served

end LlmdAsync.SqlFlow.QuotaStore
