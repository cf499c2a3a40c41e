import LlmdAsync.SqlFlow.QuotaTally

/-!
# Waiters of the quota store

Waiters are queued in the order in which they arrive, a batch is a whole queue, and a waiter is in
one batch at most.
-/

namespace LlmdAsync.SqlFlow.QuotaStore

open SqlQueue Custody List Function Batcher

variable {ttl : ℤ} {t : Thread} {c : Choice} {x : Audit} {s s' : State} {a : Action} {r : a.Reply}

/-! ### What an action does to waiters -/

namespace Batcher

variable {s s' : Batcher}

/-- Receive the reply. -/
def received (s : Batcher) (w : ℕ) : Batcher := s.setWaiter w { s.waiter w with reply := none }

/-- What an action has done to waiters. -/
inductive Did (s : Batcher) : (a : Action) → a.Reply → Batcher → Prop
  | other {a : Action} (r : a.Reply) (ha : a.part = .registry ∨ a.part = .life) : Did s a r s
  | closed (k : SlotKey) : Did s (.enqueue k) none s
  | joined (k : SlotKey) :
    Did s (.enqueue k) (some s.nextWaiter) (s.join k ((s.queues k).getD []))
  | gaveUp (key : String) (w : ℕ) : Did s (.select key w) none s
  | selected (key : String) (w : ℕ) (reply : AdmitReply) (h : (s.waiter w).reply = some reply) :
    Did s (.select key w) (some reply) (s.received w)
  | received (key : String) (w : ℕ) (reply : AdmitReply) (h : (s.waiter w).reply = some reply) :
    Did s (.receive key w) reply (s.received w)
  | abandoned (key : String) (w : ℕ) (h : (s.waiter w).state = .pending) :
    Did s (.abandon key w) true (s.setWaiter w { s.waiter w with state := .abandoned })
  | notAbandoned (key : String) (w : ℕ) (h : (s.waiter w).state ≠ .pending) :
    Did s (.abandon key w) false s
  | taken (k : SlotKey) : Did s (.takeBatch k) ((s.queues k).getD [])
    { s with queues :=
        (Function.update s.queues k (if (s.queues k).getD [] = [] then none else some [])) }
  | answered (key : String) (w : ℕ) (reply : AdmitReply) (h : (s.waiter w).state = .pending) :
    Did s (.answer key w reply) true (s.setWaiter w { s.waiter w with state := .answered })
  | notAnswered (key : String) (w : ℕ) (reply : AdmitReply) (h : (s.waiter w).state ≠ .pending) :
    Did s (.answer key w reply) false s
  | sent (key : String) (w : ℕ) (reply : AdmitReply) (h : (s.waiter w).reply = none) :
    Did s (.send key w reply) () (s.setWaiter w { s.waiter w with reply := some reply })

lemma receive_eq_some {w : ℕ} {reply : AdmitReply} (h : s.receive w = some (reply, s')) :
    (s.waiter w).reply = some reply ∧ s' = s.received w := by
  obtain ⟨reply', hreply, heq⟩ := Option.map_eq_some_iff.mp h
  obtain ⟨rfl, rfl⟩ := Prod.mk.inj heq
  exact ⟨hreply, rfl⟩

lemma step_did (he : s.step a c = some (r, s')) : Did s a r s' := by
  cases a with
  | select key w =>
    simp only [step] at he
    split at he
    · cases he
      exact .gaveUp key w
    · obtain ⟨⟨reply, s₁⟩, hs₁, heq⟩ := Option.map_eq_some_iff.mp he
      obtain ⟨hreply, rfl⟩ := receive_eq_some hs₁
      cases heq
      exact .selected key w reply hreply
  | receive key w =>
    obtain ⟨hreply, rfl⟩ := receive_eq_some he
    exact .received key w r hreply
  | abandon key w =>
    simp only [step, swap] at he
    split at he <;> cases he
    · exact .abandoned key w ‹_›
    · exact .notAbandoned key w ‹_›
  | takeBatch k =>
    cases he
    exact .taken k
  | answer key w reply =>
    simp only [step, swap] at he
    split at he <;> cases he
    · exact .answered key w reply ‹_›
    · exact .notAnswered key w reply ‹_›
  | send key w reply =>
    simp only [step] at he
    split at he <;> cases he
    exact .sent key w reply ‹_›
  | _ => exact nomatch he

end Batcher

lemma effect_did (he : effect ttl t a c s = some (r, s')) : Batcher.Did s.slots a r s'.slots := by
  rcases effect_cases he with ⟨hpart, s₁, -, rfl⟩ | ⟨hpart, s₁, -, rfl⟩ | ⟨-, s₁, hs₁, rfl⟩ |
    ⟨-, hs'⟩
  · exact .other r (.inl hpart)
  · exact .other r (.inr hpart)
  · exact step_did hs₁
  · cases a with
    | enqueue k =>
      have hjoined := Batcher.Did.joined (s := s.slots) k
      simp only [State.step] at hs'
      split at hs'
      next ws hws =>
        cases hs'
        rwa [hws] at hjoined
      next hws =>
        split at hs' <;> cases hs'
        · exact .closed k
        · rwa [hws] at hjoined
    | _ => cases hs'

namespace Batcher

variable {s s' : Batcher}

/-- Waiters stay, and so do their keys and the states they end in. -/
structure Grows (s s' : Batcher) : Prop where
  next : s.nextWaiter ≤ s'.nextWaiter
  key : ∀ w < s.nextWaiter, (s'.waiter w).key = (s.waiter w).key
  state : ∀ w < s.nextWaiter, (s.waiter w).state ≠ .pending →
    (s'.waiter w).state = (s.waiter w).state

lemma Grows.refl (s : Batcher) : s.Grows s := ⟨le_refl _, fun _ _ => rfl, fun _ _ _ => rfl⟩

lemma grows_setWaiter (s : Batcher) (w : ℕ) {y : Waiter} (hkey : y.key = (s.waiter w).key)
    (hstate : (s.waiter w).state ≠ .pending → y.state = (s.waiter w).state) :
    s.Grows (s.setWaiter w y) where
  next := le_refl _
  key w' _ := by
    rcases eq_or_ne w' w with rfl | hne
    · simpa [setWaiter] using hkey
    · simp [setWaiter, hne]
  state w' _ hpending := by
    rcases eq_or_ne w' w with rfl | hne
    · simpa [setWaiter] using hstate hpending
    · simp [setWaiter, hne]

lemma Did.grows (hd : Did s a r s') : s.Grows s' := by
  cases hd with
  | joined k =>
    refine ⟨Nat.le_succ _, fun w hw => ?_, fun w hw _ => ?_⟩
    · simp [join, hw.ne]
    · simp [join, hw.ne]
  | taken k => exact ⟨le_refl _, fun _ _ => rfl, fun _ _ _ => rfl⟩
  | selected key w reply h | received key w reply h | sent key w reply h =>
    exact s.grows_setWaiter w rfl fun _ => rfl
  | abandoned key w h | answered key w reply h =>
    exact s.grows_setWaiter w rfl fun hne => absurd h hne
  | _ => exact .refl s

/-- There is a waiter of this number for the key. -/
def Has (s : Batcher) (key : String) (w : ℕ) : Prop :=
  w < s.nextWaiter ∧ (s.waiter w).key.key = key

/-- There is one, and this is its state. -/
def HasAt (s : Batcher) (state : WaiterState) (key : String) (w : ℕ) : Prop :=
  s.Has key w ∧ (s.waiter w).state = state

lemma Grows.has (h : s.Grows s') {key : String} {w : ℕ} (hw : s.Has key w) : s'.Has key w :=
  ⟨hw.1.trans_le h.next, (congrArg SlotKey.key (h.key w hw.1)).trans hw.2⟩

lemma Grows.hasAt (h : s.Grows s') {state : WaiterState} {key : String} {w : ℕ}
    (hne : state ≠ .pending) (hw : s.HasAt state key w) : s'.HasAt state key w :=
  ⟨h.has hw.1, (h.state w hw.1.1 (hw.2 ▸ hne)).trans hw.2⟩

end Batcher

/-! ### Queues and batches -/

/-- What is known of waiters in queues, and of waiters that have been taken. -/
structure Queued (x : Audit) : Prop where
  /-- Waiters are queued in the order of arrival. -/
  queue : ∀ k ws, x.store.slots.queues k = some ws → ws.Pairwise (· < ·) ∧
    ∀ w ∈ ws, w < x.store.slots.nextWaiter ∧ (x.store.slots.waiter w).key = k ∧
      w ∉ x.past.batched
  batch : ∀ b ∈ x.past.batches, b.2.Pairwise (· < ·) ∧
    ∀ w ∈ b.2, w < x.store.slots.nextWaiter ∧ (x.store.slots.waiter w).key = b.1
  nodup : x.past.batched.Nodup

lemma record_batches (p : History) (ha : ∀ k, a ≠ .takeBatch k) :
    (p.record a r).batches = p.batches := by
  cases a with
  | takeBatch k => exact absurd rfl (ha k)
  | acquireQuotaSlots h key batch limit => cases r <;> rfl
  | queueRelease h key w by_ => cases by_ <;> rfl
  | _ => rfl

namespace Queued

lemma getD (hx : Queued x) (k : SlotKey) :
    ((x.store.slots.queues k).getD []).Pairwise (· < ·) ∧
    ∀ w ∈ (x.store.slots.queues k).getD [], w < x.store.slots.nextWaiter ∧
      (x.store.slots.waiter w).key = k ∧ w ∉ x.past.batched := by
  cases hk : x.store.slots.queues k with
  | none => exact ⟨.nil, fun w hw => absurd hw not_mem_nil⟩
  | some ws => exact hx.queue k ws hk

lemma batched_lt (hx : Queued x) {w : ℕ} (hw : w ∈ x.past.batched) :
    w < x.store.slots.nextWaiter := by
  obtain ⟨b, hb, hw⟩ := mem_flatMap.mp hw
  exact ((hx.batch b hb).2 w hw).1

lemma same {x' : Audit} (hx : Queued x) (hgrows : x.store.slots.Grows x'.store.slots)
    (hqueues : x'.store.slots.queues = x.store.slots.queues)
    (hbatches : x'.past.batches = x.past.batches) : Queued x' := by
  have hbatched : x'.past.batched = x.past.batched := by
    rw [History.batched, History.batched, hbatches]
  refine ⟨fun k ws hk => ?_, fun b hb => ?_, hbatched ▸ hx.nodup⟩
  · obtain ⟨hsorted, hws⟩ := hx.queue k ws (hqueues ▸ hk)
    refine ⟨hsorted, fun w hw => ?_⟩
    obtain ⟨hlt, hkey, hnot⟩ := hws w hw
    exact ⟨hlt.trans_le hgrows.next, (hgrows.key w hlt).trans hkey, hbatched ▸ hnot⟩
  · obtain ⟨hsorted, hws⟩ := hx.batch b (hbatches ▸ hb)
    refine ⟨hsorted, fun w hw => ?_⟩
    obtain ⟨hlt, hkey⟩ := hws w hw
    exact ⟨hlt.trans_le hgrows.next, (hgrows.key w hlt).trans hkey⟩

lemma step (hx : Queued x) (hd : Batcher.Did x.store.slots a r s'.slots)
    (ledger : Custody Place Entry) : Queued ⟨s', ledger, x.past.record a r⟩ := by
  have hgrows := hd.grows
  generalize hs : s'.slots = slots at hd hgrows
  cases hd with
  | joined k =>
    obtain ⟨hsorted, hws⟩ := hx.getD k
    refine ⟨fun k' ws' hk' => ?_, fun b hb => ?_, hx.nodup⟩
    · dsimp only at hk' ⊢
      rw [hs] at hk' ⊢
      rcases eq_or_ne k' k with rfl | hne
      · simp only [join, update_self, Option.some.injEq] at hk'
        subst hk'
        refine ⟨pairwise_append.mpr ⟨hsorted, pairwise_singleton _ _, ?_⟩, ?_⟩
        · intro w hw w' hw'
          obtain rfl := mem_singleton.mp hw'
          exact (hws w hw).1
        · intro w hw
          rcases mem_append.mp hw with hw | hw
          · obtain ⟨hlt, hkey, hnot⟩ := hws w hw
            exact ⟨hlt.trans_le hgrows.next, (hgrows.key w hlt).trans hkey, hnot⟩
          · obtain rfl := mem_singleton.mp hw
            refine ⟨Nat.lt_succ_self _, by simp [join], fun hmem => ?_⟩
            exact absurd (hx.batched_lt hmem) (lt_irrefl _)
      · simp only [join, update_of_ne hne] at hk'
        obtain ⟨hsorted', hws'⟩ := hx.queue k' ws' hk'
        refine ⟨hsorted', fun w hw => ?_⟩
        obtain ⟨hlt, hkey, hnot⟩ := hws' w hw
        exact ⟨hlt.trans_le hgrows.next, (hgrows.key w hlt).trans hkey, hnot⟩
    · obtain ⟨hsorted', hws'⟩ := hx.batch b hb
      refine ⟨hsorted', fun w hw => ?_⟩
      obtain ⟨hlt, hkey⟩ := hws' w hw
      dsimp only
      rw [hs]
      exact ⟨hlt.trans_le hgrows.next, (hgrows.key w hlt).trans hkey⟩
  | taken k =>
    obtain ⟨hsorted, hws⟩ := hx.getD k
    have hbatched : (x.past.record (.takeBatch k) ((x.store.slots.queues k).getD [])).batched =
      (x.store.slots.queues k).getD [] ++ x.past.batched := rfl
    refine ⟨fun k' ws' hk' => ?_, fun b hb => ?_, ?_⟩
    · dsimp only at hk' ⊢
      rw [hs] at hk' ⊢
      rcases eq_or_ne k' k with rfl | hne
      · simp only [update_self] at hk'
        split at hk'
        · cases hk'
        · cases hk'
          exact ⟨.nil, fun w hw => absurd hw not_mem_nil⟩
      · simp only [update_of_ne hne] at hk'
        obtain ⟨hsorted', hws'⟩ := hx.queue k' ws' hk'
        refine ⟨hsorted', fun w hw => ?_⟩
        obtain ⟨hlt, hkey, hnot⟩ := hws' w hw
        refine ⟨hlt, hkey, fun hmem => ?_⟩
        rcases mem_append.mp (hbatched ▸ hmem) with hmem | hmem
        · exact hne (hkey.symm.trans (hws w hmem).2.1)
        · exact hnot hmem
    · dsimp only
      rw [hs]
      rcases mem_cons.mp hb with rfl | hb
      · exact ⟨hsorted, fun w hw => ⟨(hws w hw).1, (hws w hw).2.1⟩⟩
      · exact hx.batch b hb
    · refine hbatched ▸ nodup_append'.mpr ⟨hsorted.imp ne_of_lt, hx.nodup, ?_⟩
      exact fun w hw hmem => (hws w hw).2.2 hmem
  | other r ha =>
    refine hx.same (hs ▸ hgrows) (congrArg queues hs) (record_batches _ ?_)
    rintro k rfl
    rcases ha with ha | ha <;> cases ha
  | _ =>
    have hqueues := congrArg queues hs
    exact hx.same (hs ▸ hgrows) hqueues (record_batches _ fun k => Action.noConfusion)

end Queued

end LlmdAsync.SqlFlow.QuotaStore
