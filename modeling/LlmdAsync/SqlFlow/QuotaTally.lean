import LlmdAsync.SqlFlow.QuotaRoutines

/-!
# Every slot is counted once

The history of the quota store says which waiters have been taken from their queues, which slots
statements have granted, and which of them have been sent to callers, released by callers or
returned on behalf of callers that gave up.  The ledger has everything in between.  So every slot
that a statement has granted is in exactly one place.
-/

namespace LlmdAsync.SqlFlow.QuotaStore

open SqlQueue Custody List Entry Action AdmitReply Settled

variable {ttl : ℤ} {t : Thread} {c : Choice} {x : Audit} {s s' : State} {a : Action} {r : a.Reply}

attribute [local simp] Action.needs Action.collects Action.yields Action.deposits History.record

/-! ### Weights of waiters and slots -/

namespace Entry

/-- How often a waiter is to be answered. -/
def opens (w : ℕ) : Entry → ℕ
  | .duty _ w' => if w' = w then 1 else 0
  | .refused _ w' => if w' = w then 1 else 0
  | .won _ _ ws => ws.countP fun w' => w' = w
  | .slot .ready _ _ w' => if w' = w then 1 else 0
  | _ => 0

/-- How many slots are on the way to a waiter that has been answered or has given up. -/
def leaves (w : ℕ) : Entry → ℕ
  | .slot .giving _ _ w' => if w' = w then 1 else 0
  | .slot .giveBack _ _ w' => if w' = w then 1 else 0
  | _ => 0

/-- How many slots with a property are on their way. -/
def brings (P : Grant → Bool) : Entry → ℕ
  | .won h key ws => ws.countP fun w => P ⟨h, key, w⟩
  | .slot .held _ _ _ => 0
  | .slot _ h key w => if P ⟨h, key, w⟩ then 1 else 0
  | _ => 0

/-- How many slots with a property have been sent to callers. -/
def holds (P : Grant → Bool) : Entry → ℕ
  | .slot .held h key w => if P ⟨h, key, w⟩ then 1 else 0
  | _ => 0

/-- How many callers wait for a waiter. -/
def awaits (w : ℕ) : Entry → ℕ
  | .waiting _ w' => if w' = w then 1 else 0
  | _ => 0

end Entry

/-- Actions that deal with slots and with waiters that are to be answered. -/
def Action.serves : Action → Bool
  | .select .. => true
  | .receive .. => true
  | .takeBatch _ => true
  | .answer .. => true
  | .send .. => true
  | .settle .. => true
  | .acquireQuotaSlots .. => true
  | .queueRelease .. => true
  | _ => false

/-- A weight of slots and of waiters that are to be answered. -/
structure Serving (f : Entry → ℕ) : Prop where
  running : f .running = 0
  naming : ∀ n, f (.naming n) = 0
  waiting : ∀ key w, f (.waiting key w) = 0
  acquiring : ∀ h, f (.acquiring h) = 0
  sending : ∀ h counts, f (.sending h counts) = 0
  sent : ∀ h counts, f (.sent h counts) = 0

namespace Serving

lemma opens (w : ℕ) : Serving (opens w) :=
  ⟨rfl, fun _ => rfl, fun _ _ => rfl, fun _ => rfl, fun _ _ => rfl, fun _ _ => rfl⟩

lemma leaves (w : ℕ) : Serving (leaves w) :=
  ⟨rfl, fun _ => rfl, fun _ _ => rfl, fun _ => rfl, fun _ _ => rfl, fun _ _ => rfl⟩

lemma brings (P : Grant → Bool) : Serving (brings P) :=
  ⟨rfl, fun _ => rfl, fun _ _ => rfl, fun _ => rfl, fun _ _ => rfl, fun _ _ => rfl⟩

lemma holds (P : Grant → Bool) : Serving (holds P) :=
  ⟨rfl, fun _ => rfl, fun _ _ => rfl, fun _ => rfl, fun _ _ => rfl, fun _ _ => rfl⟩

lemma balanced {f : Entry → ℕ} (hf : Serving f) (ha : a.serves = false) (s : State) :
    load f a.needs + load f (a.collects r) = load f (a.yields r) + load f (a.deposits s r) := by
  cases a with
  | enqueue k =>
    cases r with
    | none => rfl
    | some w =>
      simp only [needs, collects, yields, deposits, load_zero, load_singleton, hf.waiting]
      split <;> simp [hf.running]
  | abandon key w | countCurrent | newOwner | registerQuotaHolder name | spawn job =>
    cases r <;> simp [hf.waiting, hf.running, hf.acquiring, hf.naming]
  | insertHolder name renewed | begin | exit | releaseQuotaSlots h counts =>
    simp [hf.running, hf.acquiring, hf.naming, hf.sending, hf.sent]
  | takePending =>
    simp [hf.sending, Function.comp_def]
  | select key w | receive key w | takeBatch k | answer key w reply | send key w reply
  | settle h n why | acquireQuotaSlots h key batch limit | queueRelease h key w by_ => cases ha
  | _ => rfl

end Serving

lemma record_of_not_serves (p : History) (ha : a.serves = false) : p.record a r = p := by
  cases a <;> first | rfl | exact nomatch ha

/-- Waiters that have been taken from their queues. -/
def History.batched (p : History) : List ℕ := p.batches.flatMap Prod.snd

/-- What the ledger and the history have in common. -/
structure Tallied (x : Audit) : Prop where
  /-- A waiter that has been taken is to be answered, or its turn has come. -/
  opens : ∀ w, x.ledger.weigh (Entry.opens w) + x.past.decided.countP (fun d => d.1 = w) =
    x.past.batched.countP fun w' => w' = w
  /-- If it had been granted a slot then, the slot is on its way, has been sent or was returned. -/
  decided : ∀ w, x.past.decided.countP (fun d => d = (w, true)) =
    x.ledger.weigh (Entry.leaves w) + x.past.handed.countP (fun g => g.waiter = w) +
      x.past.returned.countP fun g => g.waiter = w
  granted : ∀ P, x.past.granted.countP P =
    x.ledger.weigh (Entry.brings P) + x.past.handed.countP P + x.past.returned.countP P
  handed : ∀ P, x.past.handed.countP P = x.ledger.weigh (Entry.holds P) + x.past.released.countP P

lemma load_each_countP {f : Entry → ℕ} {entry : ℕ → Entry} {p : ℕ → Bool}
    (h : ∀ w, f (entry w) = if p w then 1 else 0) (ws : List ℕ) :
    load f (each entry ws) = ws.countP p := by
  rw [load_each]
  induction ws with
  | nil => rfl
  | cons w ws ih => rw [map_cons, sum_cons, ih, h, countP_cons, add_comm]

lemma countP_take_add_drop (p : ℕ → Bool) (ws : List ℕ) (n : ℕ) :
    (ws.take n).countP p + (ws.drop n).countP p = ws.countP p := by
  rw [← countP_append, take_append_drop]

lemma AdmitReply.load_opens (reply : AdmitReply) (key : String) (w w' : ℕ) :
    load (opens w') (reply.claim key w) = (if w = w' then 1 else 0) ∧
    load (opens w') (reply.right key w) = 0 ∧
    load (opens w') (reply.slot .held key w) = 0 ∧
    load (opens w') (reply.slot .giveBack key w) = 0 := by
  obtain ⟨ok, holder, err⟩ := reply
  cases ok <;> cases holder <;> cases err <;>
    simp [slot, claim, right, opens]

lemma opens_balanced (p : History) (s : State) (w : ℕ) :
    load (opens w) (a.yields r) + load (opens w) (a.deposits s r) +
        p.batched.countP (fun w' => w' = w) + (p.record a r).decided.countP (fun d => d.1 = w) =
      load (opens w) a.needs + load (opens w) (a.collects r) +
        (p.record a r).batched.countP (fun w' => w' = w) + p.decided.countP fun d => d.1 = w := by
  by_cases ha : a.serves = false
  · rw [record_of_not_serves p ha, (Serving.opens w).balanced ha s]
  have hslot := fun reply key w' => (load_opens reply key w' w).2.2
  have heach : ∀ (entry : ℕ → Entry) (ws : List ℕ),
      (∀ w', (entry w').opens w = if decide (w' = w) then 1 else 0) →
      load (opens w) (each entry ws) = ws.countP fun w' => w' = w :=
    fun entry ws h => load_each_countP h ws
  cases a with
  | select key w' =>
    cases r <;> simp [opens, hslot]
  | receive key w' =>
    simp [opens, hslot]
  | takeBatch k =>
    simp only [needs, collects, yields, deposits, History.record,
      History.batched, flatMap_cons, countP_append, load_zero,
      heach (.duty k.key) r (by simp [opens])]
    omega
  | answer key w' reply =>
    have hclaim := (load_opens reply key w' w).1
    cases r <;> simp [hslot, hclaim, (load_opens reply key w' w).2.1,
      countP_cons, History.batched] <;> omega
  | send key w' reply =>
    simp [hslot, (load_opens reply key w' w).2.1, History.batched]
  | settle h n why =>
    cases why with
    | granted key ws =>
      simp [rest, entry, heach (.slot .ready h key) ws (by simp [opens]),
        opens]
    | _ => rfl
  | acquireQuotaSlots h key batch limit =>
    cases r with
    | error e =>
      simp
    | ok granted =>
      have hsplit := countP_take_add_drop (fun w' => w' = w) batch granted.val
      simp only [needs, collects, yields, deposits, History.record,
        load_cons, load_zero, heach (.duty key) batch (by simp [opens]),
        heach (.refused key) (batch.drop granted.val) (by simp [opens]), opens,
        History.batched]
      omega
  | queueRelease h key w' by_ =>
    cases by_ <;> simp [Releaser.phase, opens, History.batched]
  | _ => exact absurd rfl ha

lemma AdmitReply.load_leaves (reply : AdmitReply) (key : String) (w w' : ℕ) :
    load (leaves w') (reply.right key w) =
      (reply.grant key w).countP (fun g => g.waiter = w') ∧
    load (leaves w') (reply.slot .giveBack key w) =
      (reply.grant key w).countP (fun g => g.waiter = w') ∧
    load (leaves w') (reply.slot .held key w) = 0 ∧
    load (leaves w') (reply.claim key w) = 0 ∧
    (if (w, decide (reply.grant key w ≠ [])) = (w', true) then 1 else 0) =
      (reply.grant key w).countP fun g => g.waiter = w' := by
  obtain ⟨ok, holder, err⟩ := reply
  cases ok <;> cases holder <;> cases err <;>
    simp [slot, claim, right, grant, leaves, countP_cons]

lemma leaves_balanced (p : History) (s : State) (w : ℕ) :
    load (leaves w) (a.yields r) + load (leaves w) (a.deposits s r) +
        p.decided.countP (fun d => d = (w, true)) +
        (p.record a r).handed.countP (fun g => g.waiter = w) +
        (p.record a r).returned.countP (fun g => g.waiter = w) =
      load (leaves w) a.needs + load (leaves w) (a.collects r) +
        (p.record a r).decided.countP (fun d => d = (w, true)) +
        p.handed.countP (fun g => g.waiter = w) + p.returned.countP fun g => g.waiter = w := by
  by_cases ha : a.serves = false
  · rw [record_of_not_serves p ha, (Serving.leaves w).balanced ha s]
  have hreply := fun reply key w' => load_leaves reply key w' w
  cases a with
  | select key w' =>
    cases r <;> simp [leaves, hreply]
  | receive key w' =>
    simp [leaves, hreply]
  | takeBatch k =>
    simp [load_each, leaves]
  | answer key w' reply =>
    obtain ⟨hright, hback, -, hclaim, hdecided⟩ := hreply reply key w'
    cases r <;> simp only [needs, collects, yields, deposits,
      History.record, load_zero, hright, hback, hclaim, countP_cons, decide_eq_true_eq,
      hdecided] <;> omega
  | send key w' reply =>
    obtain ⟨hright, -, hheld, -, -⟩ := hreply reply key w'
    simp only [needs, collects, yields, deposits, History.record,
      load_zero, hright, hheld, countP_append]
    omega
  | settle h n why =>
    cases why with
    | granted key ws =>
      simp [rest, entry, load_each, leaves]
    | _ => rfl
  | acquireQuotaSlots h key batch limit =>
    cases r <;> simp [load_each, leaves]
  | queueRelease h key w' by_ =>
    cases by_ <;> simp [Releaser.phase, leaves, countP_cons]
    omega
  | _ => exact absurd rfl ha

lemma AdmitReply.load_brings (reply : AdmitReply) (key : String) (w : ℕ) (P : Grant → Bool) :
    load (brings P) (reply.right key w) = (reply.grant key w).countP P ∧
    load (brings P) (reply.slot .giveBack key w) = (reply.grant key w).countP P ∧
    load (brings P) (reply.claim key w) = (reply.grant key w).countP P ∧
    load (brings P) (reply.slot .held key w) = 0 ∧
    load (holds P) (reply.slot .held key w) = (reply.grant key w).countP P ∧
    load (holds P) (reply.slot .giveBack key w) = 0 ∧ load (holds P) (reply.claim key w) = 0 ∧
    load (holds P) (reply.right key w) = 0 := by
  obtain ⟨ok, holder, err⟩ := reply
  cases ok <;> cases holder <;> cases err <;>
    simp [slot, claim, right, grant, brings, holds, countP_cons]

lemma brings_balanced (p : History) (s : State) (P : Grant → Bool) :
    load (brings P) (a.yields r) + load (brings P) (a.deposits s r) +
        p.granted.countP P + (p.record a r).handed.countP P + (p.record a r).returned.countP P =
      load (brings P) a.needs + load (brings P) (a.collects r) +
        (p.record a r).granted.countP P + p.handed.countP P + p.returned.countP P := by
  by_cases ha : a.serves = false
  · rw [record_of_not_serves p ha, (Serving.brings P).balanced ha s]
  have hreply := fun reply key w => load_brings reply key w P
  cases a with
  | select key w =>
    cases r <;> simp [brings, hreply]
  | receive key w =>
    simp [brings, hreply]
  | takeBatch k =>
    simp [load_each, brings]
  | answer key w reply =>
    cases r <;> simp [hreply]
  | send key w reply =>
    simp only [needs, collects, yields, deposits, History.record, load_zero, hreply, countP_append]
    omega
  | settle h n why =>
    cases why with
    | granted key ws =>
      have hready : load (brings P) (each (.slot .ready h key) ws) =
          ws.countP fun w => P ⟨h, key, w⟩ := load_each_countP (fun w => by simp [brings]) ws
      simp [rest, entry, hready, brings]
    | _ => rfl
  | acquireQuotaSlots h key batch limit =>
    cases r with
    | error e =>
      simp
    | ok granted =>
      simp only [needs, collects, yields, deposits, History.record,
        load_each, load_cons, load_zero, brings, countP_append, countP_map,
        Function.comp_def]
      simp
  | queueRelease h key w by_ =>
    cases by_ <;> simp [Releaser.phase, brings, countP_cons]
    omega
  | _ => exact absurd rfl ha

lemma holds_balanced (p : History) (s : State) (P : Grant → Bool) :
    load (holds P) (a.yields r) + load (holds P) (a.deposits s r) +
        p.handed.countP P + (p.record a r).released.countP P =
      load (holds P) a.needs + load (holds P) (a.collects r) +
        (p.record a r).handed.countP P + p.released.countP P := by
  by_cases ha : a.serves = false
  · rw [record_of_not_serves p ha, (Serving.holds P).balanced ha s]
  have hreply := fun reply key w => load_brings reply key w P
  cases a with
  | select key w =>
    cases r <;> simp [holds, hreply]
  | receive key w =>
    simp [holds, hreply]
  | takeBatch k =>
    simp [load_each, holds]
  | answer key w reply =>
    cases r <;> simp [hreply]
  | send key w reply =>
    simp only [needs, collects, yields, deposits, History.record, load_zero, hreply, countP_append]
    omega
  | settle h n why =>
    cases why with
    | granted key ws =>
      simp [rest, entry, load_each, holds]
    | _ => rfl
  | acquireQuotaSlots h key batch limit =>
    cases r <;> simp [load_each, holds]
  | queueRelease h key w by_ =>
    cases by_ <;> simp [Releaser.phase, holds, countP_cons]
    omega
  | _ => exact absurd rfl ha

lemma Tallied.step (hx : Tallied x) (hn : a.needs ≤ x.ledger.held (.hand t))
    (hc : a.collects r ≤ x.ledger.held (site x.store t a)) :
    Tallied ⟨s', x.enter t a r, x.past.record a r⟩ where
  opens w := by
    have hweigh := x.weigh_enter (r := r) hn hc (Entry.opens w)
    have hbalance := opens_balanced (a := a) (r := r) x.past x.store w
    have hold := hx.opens w
    dsimp only
    omega
  decided w := by
    have hweigh := x.weigh_enter (r := r) hn hc (leaves w)
    have hbalance := leaves_balanced (a := a) (r := r) x.past x.store w
    have hold := hx.decided w
    dsimp only
    omega
  granted P := by
    have hweigh := x.weigh_enter (r := r) hn hc (brings P)
    have hbalance := brings_balanced (a := a) (r := r) x.past x.store P
    have hold := hx.granted P
    dsimp only
    omega
  handed P := by
    have hweigh := x.weigh_enter (r := r) hn hc (holds P)
    have hbalance := holds_balanced (a := a) (r := r) x.past x.store P
    have hold := hx.handed P
    dsimp only
    omega

end LlmdAsync.SqlFlow.QuotaStore
