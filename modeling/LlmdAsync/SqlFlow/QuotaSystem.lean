import LlmdAsync.SqlFlow.QuotaLedger
import LlmdAsync.SqlQueue.QuotaHolders

/-!
# The quota store as a system of threads

The state of `QuotaStore`, what each action does to it, and the threads that run its code: callers
of `AcquireSlot`, goroutines of `spawn` and callers of `Close`.  The database is a `QuotaWorld`, in
which other stores run statements for holders of their own.

A statement can return an error, and then it has taken effect before or not at all.  The names of
`newOwner` are random, and none is drawn twice.  What the code leaves open, such as the order in
which a map is traversed, is a `Choice`.  `Audit` adds the ledger of `terms` and a history, on which
nothing that happens depends.
-/

namespace LlmdAsync.SqlFlow.QuotaStore

open SqlQueue

/-! ### State -/

/-- `quotaHolder`. -/
structure Holder where
  known : ℤ
  renewed : ℤ
  retired : Bool
  deleting : Bool
  gone : Bool
deriving DecidableEq, Repr

/-- The states of a waiter. -/
inductive WaiterState where
  | pending
  | answered
  | abandoned
deriving DecidableEq, Repr

/-- `admitWaiter`. -/
structure Waiter where
  key : SlotKey
  state : WaiterState
  /-- What is in the channel. -/
  reply : Option AdmitReply
deriving DecidableEq, Repr

/-- What `mu`, `registerMu` and `releaseMu` guard, and the world around the store. -/
structure Registry where
  /-- The database. -/
  world : QuotaWorld
  /-- The clock of the process, in nanoseconds. -/
  clock : ℤ
  used : Bool
  /-- `registerMu` is locked. -/
  registering : Bool
  current : Option String
  /-- All holders that have ever been registered. -/
  heap : String → Option Holder
  /-- The holders in the map `holders`. -/
  holders : List String
  /-- Holder and key of every queued release. -/
  pending : Multiset (String × String)
  releasing : Bool
  /-- The names that `newOwner` has returned. -/
  names : List String

/-- What `lifeMu` guards. -/
structure Lifetime where
  closed : Bool
  /-- The context of the store has ended. -/
  cancelled : Bool
  wg : ℕ
  /-- Goroutines that have been spawned and have not started. -/
  jobs : ℕ → Option Job
  nextJob : ℕ

/-- `admitBatcher`, and its waiters. -/
structure Batcher where
  queues : SlotKey → Option (List ℕ)
  waiter : ℕ → Waiter
  nextWaiter : ℕ

/-- `QuotaStore`. -/
structure State where
  registry : Registry
  life : Lifetime
  slots : Batcher

inductive Outcome where
  | success
  | failed (e : String) (tookEffect : Bool)
deriving DecidableEq, Repr

structure Choice where
  outcome : Outcome := .success
  /-- The context has ended, for a `select`. -/
  ended : Bool := false
  owner : Except String String := .error ""
  /-- The queued releases in the order in which the maps are traversed. -/
  rows : List (String × List (String × ℕ)) := []
  /-- Holders in the order in which the map is traversed. -/
  order : List String := []
  picks : QuotaDb.ReapPicks := ⟨fun _ => true, fun _ => true, fun _ => true, fun _ => true⟩

inductive Thread where
  | caller (i : ℕ)
  | routine (n : ℕ)
  | closer (i : ℕ)
deriving DecidableEq, Repr

/-- The queued releases that rows stand for. -/
def listed (rows : List (String × List (String × ℕ))) : Multiset (String × String) :=
  (rows.flatMap fun r => r.2.flatMap fun c => List.replicate c.2 (r.1, c.1) :
    List (String × String))

/-- The rows are the queued releases in some order: every holder has one row, and every key of it
one count. -/
def Lists (rows : List (String × List (String × ℕ))) (pending : Multiset (String × String)) :
    Prop :=
  listed rows = pending ∧ (rows.map Prod.fst).Nodup ∧
    ∀ r ∈ rows, (r.2.map Prod.fst).Nodup ∧ r.2 ≠ [] ∧ ∀ c ∈ r.2, 0 < c.2

instance (rows : List (String × List (String × ℕ))) (pending : Multiset (String × String)) :
    Decidable (Lists rows pending) :=
  inferInstanceAs (Decidable (_ ∧ _ ∧ _))

/-- `quotaReapBatch`. -/
def quotaReapBatch : ℕ := 1000

/-! ### Actions -/

namespace Registry

def modify (s : Registry) (h : String) (f : Holder → Holder) : Registry :=
  { s with heap := Function.update s.heap h ((s.heap h).map f) }

/-- The holder is not the current one any more. -/
def vacate (s : Registry) (h : String) : Registry :=
  { s with current := if s.current = some h then none else s.current }

/-- `retire`. -/
def retire (s : Registry) (h : String) : Registry :=
  (s.modify h fun x => { x with retired := true }).vacate h

def remove (s : Registry) (h : String) : Registry :=
  { s.modify h fun x => { x with gone := true } with holders := s.holders.filter (· ≠ h) }

/-- Run a statement whose answer is known. -/
def attempt {ε α : Type} (s : Registry) (o : Outcome) (fail : String → ε) (step : QuotaStep)
    (answer : Except ε α) : Except ε α × Registry :=
  match o with
  | .success => (answer, { s with world := s.world.next step })
  | .failed e true => (.error (fail e), { s with world := s.world.next step })
  | .failed e false => (.error (fail e), s)

/-- The answer of `AcquireQuotaSlots`.  The database grants no more than it is asked for, so that
the minimum is what it grants. -/
def acquireAnswer (s : Registry) (h key : String) (batch : List ℕ) (limit : ℤ) :
    Except AcquireError (Fin (batch.length + 1)) :=
  match (s.world.db.quotaAcquire s.world.now key h batch.length limit).1 with
  | none => .error .lapsed
  | some granted => .ok ⟨min granted.toNat batch.length, Nat.lt_succ_of_le (Nat.min_le_right ..)⟩

/-- The answer of `RegisterQuotaHolder`. -/
def registerAnswer (s : Registry) (ttl : ℤ) (name : String) : Except String Unit :=
  if (s.world.db.registerQuotaHolder s.world.now name (milliseconds ttl)).1 then .ok ()
  else .error "sqlqueue: register quota holder"

/-- The section of `renew`. -/
def renewed (s : Registry) (ttl : ℤ) (h : String) (started : ℤ) (live : Except String Bool) :
    Registry :=
  match live with
  | .ok true => s.modify h fun x => { x with renewed := started }
  | .ok false => (s.retire h).remove h
  | .error _ =>
    if (s.heap h).any fun x => decide (s.clock - x.renewed ≥ ttl) then s.retire h else s

/-- The holders that `Close` deletes. -/
def idle (s : Registry) : List String :=
  s.holders.filter fun h => (s.heap h).any fun x => decide (x.known = 0) && !x.gone

def step (ttl : ℤ) : (a : Action) → Choice → Registry → Option (a.Reply × Registry)
  | .markUsed, _, s => some ((), { s with used := true })
  | .countCurrent, _, s =>
    match s.current with
    | none => some (none, s)
    | some h => some (some h, s.modify h fun x => { x with known := x.known + 1 })
  | .lockRegister, _, s => if s.registering then none else some ((), { s with registering := true })
  | .unlockRegister, _, s => some ((), { s with registering := false })
  | .newOwner, c, s =>
    match c.owner with
    | .error e => some (.error e, s)
    | .ok name =>
      if name ∈ s.names ∨ (Hash.hget s.world.db.holders name).isSome then none
      else some (.ok name, { s with names := name :: s.names })
  | .now, _, s => some (s.clock, s)
  | .insertHolder name renewed, _, s =>
    some ((), { s with
      heap := Function.update s.heap name (some ⟨1, renewed, false, false, false⟩)
      current := some name
      holders := name :: s.holders })
  | .retire h, _, s => some ((), s.retire h)
  | .settle h n _, _, s => (s.heap h).map fun x =>
    let drop := x.retired && !x.gone && !x.deleting && decide (x.known - n = 0)
    (drop, s.modify h fun x => { x with known := x.known - n, deleting := x.deleting || drop })
  | .registerQuotaHolder name, c, s =>
    some (s.attempt c.outcome id (.register name (milliseconds ttl)) (s.registerAnswer ttl name))
  | .acquireQuotaSlots h key batch limit, c, s =>
    some (s.attempt c.outcome .failed (.acquire h key batch.length limit)
      (s.acquireAnswer h key batch limit))
  | .releaseQuotaSlots h counts, c, s =>
    some (s.attempt c.outcome id (.release h counts) (.ok ()))
  | .renewQuotaHolder h, c, s =>
    some (s.attempt c.outcome id (.renew h (milliseconds ttl))
      (.ok (s.world.db.renewQuotaHolder s.world.now h (milliseconds ttl)).1))
  | .deleteQuotaHolder h, c, s => some (s.attempt c.outcome id (.delete h) (.ok ()))
  | .reapQuotaHolders, c, s =>
    some (s.attempt c.outcome id (.reapHolders (milliseconds ttl)) (.ok ()))
  | .reapQuota, c, s => some (s.attempt c.outcome id (.reap c.picks quotaReapBatch) (.ok ()))
  | .markGone h, _, s => some ((), s.remove h)
  | .isUsed, _, s => some (s.used, s)
  | .listHolders, c, s => if c.order.Perm s.holders then some (c.order, s) else none
  | .isDeleting h, _, s => some ((s.heap h).any Holder.deleting, s)
  | .renewed h started live, _, s => some ((), s.renewed ttl h started live)
  | .queueRelease h key _ _, _, s =>
    some (!s.releasing, { s with pending := (h, key) ::ₘ s.pending, releasing := true })
  | .takePending, c, s =>
    if s.pending = 0 then some ([], { s with releasing := false })
    else if Lists c.rows s.pending then some (c.rows, { s with pending := 0 }) else none
  | .idleHolders, c, s => if c.order.Perm s.idle then some (c.order, s) else none
  | _, _, _ => none

end Registry

namespace Lifetime

/-- `spawn`, if the store is not closed. -/
def spawned (s : Lifetime) (job : Job) : Lifetime :=
  { s with
    wg := s.wg + 1
    jobs := Function.update s.jobs s.nextJob (some job)
    nextJob := s.nextJob + 1 }

def step (t : Thread) : (a : Action) → Choice → Lifetime → Option (a.Reply × Lifetime)
  | .tick, c, s =>
    if c.ended then if s.cancelled then some (false, s) else none else some (true, s)
  | .spawn job, _, s => if s.closed then some (false, s) else some (true, s.spawned job)
  | .begin, _, s =>
    match t with
    | .routine n =>
      (s.jobs n).map fun job => (job, { s with jobs := Function.update s.jobs n none })
    | _ => none
  | .exit, _, s => some ((), { s with wg := s.wg - 1 })
  | .close, _, s => some ((), { s with closed := true })
  | .cancel, _, s => some ((), { s with cancelled := true })
  | .wait, _, s => if s.wg = 0 then some ((), s) else none
  | _, _, _ => none

end Lifetime

namespace Batcher

def setWaiter (s : Batcher) (w : ℕ) (x : Waiter) : Batcher :=
  { s with waiter := Function.update s.waiter w x }

/-- A new waiter at the end of a queue. -/
def join (s : Batcher) (k : SlotKey) (ws : List ℕ) : Batcher where
  queues := Function.update s.queues k (some (ws ++ [s.nextWaiter]))
  waiter := Function.update s.waiter s.nextWaiter ⟨k, .pending, none⟩
  nextWaiter := s.nextWaiter + 1

/-- `CompareAndSwap` of the state of a waiter that is pending. -/
def swap (s : Batcher) (w : ℕ) (state : WaiterState) : Bool × Batcher :=
  if (s.waiter w).state = .pending then (true, s.setWaiter w { s.waiter w with state := state })
  else (false, s)

/-- Receive from the channel of a waiter. -/
def receive (s : Batcher) (w : ℕ) : Option (AdmitReply × Batcher) :=
  (s.waiter w).reply.map fun r => (r, s.setWaiter w { s.waiter w with reply := none })

def step : (a : Action) → Choice → Batcher → Option (a.Reply × Batcher)
  | .select _ w, c, s =>
    if c.ended then some (none, s) else (s.receive w).map fun rs => (some rs.1, rs.2)
  | .abandon _ w, _, s => some (s.swap w .abandoned)
  | .receive _ w, _, s => s.receive w
  | .takeBatch k, _, s =>
    let batch := (s.queues k).getD []
    some (batch, { s with
      queues := Function.update s.queues k (if batch = [] then none else some []) })
  | .answer _ w _, _, s => some (s.swap w .answered)
  | .send _ w r, _, s =>
    if (s.waiter w).reply = none then
      some ((), s.setWaiter w { s.waiter w with reply := some r })
    else none
  | _, _, _ => none

end Batcher

/-- What actions do to waiters and goroutines at once: the first section of `admit`. -/
def State.step : (a : Action) → State → Option (a.Reply × State)
  | .enqueue k, s =>
    match s.slots.queues k with
    | some ws => some (some s.slots.nextWaiter, { s with slots := s.slots.join k ws })
    | none =>
      if s.life.closed then some (none, s)
      else some (some s.slots.nextWaiter,
        { s with slots := s.slots.join k [], life := s.life.spawned (.flush k) })
  | _, _ => none

/-- What an action is about. -/
inductive Part where
  | registry
  | life
  | slots
  | both
deriving DecidableEq, Repr

/-- What each action is about. -/
def Action.part : Action → Part
  | .enqueue _ => .both
  | .select .. => .slots
  | .abandon .. => .slots
  | .receive .. => .slots
  | .takeBatch _ => .slots
  | .answer .. => .slots
  | .send .. => .slots
  | .tick => .life
  | .spawn _ => .life
  | .begin => .life
  | .exit => .life
  | .close => .life
  | .cancel => .life
  | .wait => .life
  | _ => .registry

def effect (ttl : ℤ) (t : Thread) (a : Action) (c : Choice) (s : State) :
    Option (a.Reply × State) :=
  match a.part with
  | .registry => (s.registry.step ttl a c).map fun rs => (rs.1, { s with registry := rs.2 })
  | .life => (s.life.step t a c).map fun rs => (rs.1, { s with life := rs.2 })
  | .slots => (s.slots.step a c).map fun rs => (rs.1, { s with slots := rs.2 })
  | .both => s.step a

/-! ### Ledger and history -/

/-- Where entries of the ledger are. -/
inductive Place where
  | hand (t : Thread)
  /-- In the channel of a waiter. -/
  | reply (w : ℕ)
  /-- With a goroutine that has not started. -/
  | job (n : ℕ)
deriving DecidableEq, Repr

/-- A slot that a statement has granted, for a waiter. -/
structure Grant where
  holder : String
  key : String
  waiter : ℕ
deriving DecidableEq, Repr

/-- The slot that a reply brings. -/
def AdmitReply.grant (r : AdmitReply) (key : String) (w : ℕ) : List Grant :=
  match r.ok, r.holder with
  | true, some h => [⟨h, key, w⟩]
  | _, _ => []

structure History where
  /-- Batches that have been taken from the queues. -/
  batches : List (SlotKey × List ℕ)
  /-- Slots granted by statements that have returned successfully. -/
  granted : List Grant
  /-- Waiters whose turn came in `flush`, and whether they had been granted a slot. -/
  decided : List (ℕ × Bool)
  /-- Slots that have been sent to callers. -/
  handed : List Grant
  /-- Slots that callers have passed to `release`. -/
  released : List Grant
  /-- Slots that have been passed to `release` on behalf of callers that gave up. -/
  returned : List Grant

/-- What an action adds to the history. -/
def History.record (p : History) : (a : Action) → a.Reply → History
  | .takeBatch k, ws => { p with batches := (k, ws) :: p.batches }
  | .acquireQuotaSlots h key batch _, .ok granted =>
    { p with granted := (batch.take granted.val).map (Grant.mk h key) ++ p.granted }
  | .answer key w r, _ => { p with decided := (w, (r.grant key w ≠ [] : Bool)) :: p.decided }
  | .send key w r, _ => { p with handed := r.grant key w ++ p.handed }
  | .queueRelease h key w .caller, _ => { p with released := ⟨h, key, w⟩ :: p.released }
  | .queueRelease h key w .flush, _ => { p with returned := ⟨h, key, w⟩ :: p.returned }
  | _, _ => p

/-- The state with its ledger and history. -/
structure Audit where
  store : State
  ledger : Custody Place Entry
  past : History

/-- The channel or the new goroutine that an action is about, if there is one. -/
def site (s : State) (t : Thread) : Action → Place
  | .select _ w => .reply w
  | .receive _ w => .reply w
  | .send _ w _ => .reply w
  | .begin =>
    match t with
    | .routine n => .job n
    | _ => .job s.life.nextJob
  | _ => .job s.life.nextJob

/-- What an action takes from there. -/
def Action.collects : (a : Action) → a.Reply → Multiset Entry
  | .select key w, some r => r.slot .held key w
  | .receive key w, r => r.slot .held key w
  | .begin, _ => {.running}
  | _, _ => 0

/-- What it puts there. -/
def Action.deposits (s : State) : (a : Action) → a.Reply → Multiset Entry
  | .enqueue k, some _ => if s.slots.queues k = none then {.running} else 0
  | .spawn _, true => {.running}
  | .send key w r, _ => r.slot .held key w
  | _, _ => 0

/-- The ledger after an action. -/
def Audit.enter (x : Audit) (t : Thread) (a : Action) (r : a.Reply) : Custody Place Entry :=
  (x.ledger.exchange (.hand t) a.needs (a.yields r)).exchange (site x.store t a) (a.collects r)
    (a.deposits x.store r)

/-! ### The system -/

inductive Operation where
  | acquireSlot (rounds : ℕ) (k : SlotKey)
  | routine (rounds : ℕ)
  | close
deriving DecidableEq, Repr

def Operation.code : Operation → Code Unit
  | .acquireSlot rounds k => QuotaStore.acquireSlot rounds k
  | .routine rounds => QuotaStore.routine rounds
  | .close => QuotaStore.close

/-- A thread can start an operation; a goroutine starts once, after it has been spawned. -/
def Operation.starts (t : Thread) (o : Operation) (s : State) : Bool :=
  match t, o with
  | .caller _, .acquireSlot .. => true
  | .routine n, .routine _ => (s.life.jobs n).isSome
  | .closer _, .close => true
  | _, _ => false

inductive Event where
  /-- A statement of another store, or time that passes in the database. -/
  | statement (step : QuotaStep)
  | clock (ns : ℕ)

def Event.step (e : Event) (s : Registry) : Option Registry :=
  match e with
  | .statement step =>
    if step.holder.any fun h => decide (h ∈ s.names) then none
    else some { s with world := s.world.next step }
  | .clock ns => some { s with clock := s.clock + ns }

def system (ttl : ℤ) : ThreadSystem Action Action.Reply Thread Audit Choice Operation Event where
  exec t a c x := (effect ttl t a c x.store).map fun rs =>
    (rs.1, ⟨rs.2, x.enter t a rs.1, x.past.record a rs.1⟩)
  program _ o := o.code
  starts t o x := o.starts t x.store
  env e x :=
    (e.step x.store.registry).map fun s => { x with store := { x.store with registry := s } }
  kills _ _ := false

/-- `NewQuotaStore`, which has spawned the heartbeat. -/
def newQuotaStore (world : QuotaWorld) : Audit where
  store :=
    { registry :=
        { world := world, clock := 0, used := false, registering := false, current := none,
          heap := fun _ => none, holders := [], pending := 0, releasing := false, names := [] }
      life :=
        { closed := false, cancelled := false, wg := 1,
          jobs := fun n => if n = 0 then some .heartbeat else none, nextJob := 1 }
      slots :=
        { queues := fun _ => none, waiter := fun _ => ⟨⟨"", 0⟩, .pending, none⟩,
          nextWaiter := 0 } }
  ledger := .put (.job 0) {.running}
  past := ⟨[], [], [], [], [], []⟩

end LlmdAsync.SqlFlow.QuotaStore
