import LlmdAsync.SqlQueue.Consumer

/-!
# Consumers on one database

The code of `Consumer` as programs whose actions are the mutex `cycle`, critical sections of `mu`
and store calls, and the system in which any number of consumers run any number of such operations
concurrently on one database.  A store call may succeed, fail without effect, or take effect and
still return an error.  A consumer may crash between any two actions, and producers enqueue, cancel
and drain results at any time.
-/

namespace LlmdAsync.SqlQueue

/-! ### Code -/

/-- The operations that hold the mutex `cycle`. -/
inductive CycleOp where
  | poll
  | rebalance
  | close
deriving DecidableEq, Repr

inductive Action where
  /-- `c.cycle.Lock()`, by the given operation. -/
  | lock (op : CycleOp)
  /-- `c.cycle.Unlock()`. -/
  | unlock
  /-- A critical section of `c.mu`. -/
  | critical (s : Critical)
  /-- A statement of the store. -/
  | call (s : Stmt)

/-- The answer to an action; a store call that returns an error is answered by `none`. -/
def Action.Reply : Action → Type
  | .lock _ => Unit
  | .unlock => Unit
  | .critical s => s.Reply
  | .call s => Option (SqlQueue.Reply s)

/-- Code that returns an `α`. -/
abbrev Code (α : Type) := Prog Action Action.Reply α

/-- Lock `cycle`. -/
def lock (op : CycleOp) : Code Unit := Prog.perform (Action.lock op)

/-- Unlock `cycle`. -/
def unlock : Code Unit := Prog.perform Action.unlock

def critical (s : Critical) : Code s.Reply := Prog.perform (Action.critical s)

def call (s : Stmt) : Code (Option (Reply s)) := Prog.perform (Action.call s)

/-- The parameters `NewConsumer` is given. -/
structure Config where
  queue : String
  leaseTTL : Time
  drainTimeout : Time

/-- `Store.Undispatch` and `Store.Defer`: nothing to do without stamps. -/
def storeUndispatch (owner : Owner) (stamps : List Stamp) (notBefore : ℤ) : Code Bool :=
  if stamps = [] then pure true
  else do
    let r ← call (.undispatch owner stamps notBefore)
    pure r.isSome

/-- `Store.Ack`: nothing to do without completions. -/
def storeAck (owner : Owner) (cs : List Completion) (createdAt : ℤ) :
    Code (Option (List Bool)) :=
  if cs = [] then pure (some [])
  else do
    match ← call (.ack owner cs createdAt) with
    | none => pure none
    | some acked => pure (some acked)

/-- `Store.ResetStale`: an empty slice that is not nil means no partition. -/
def storeResetStale (queue : String) (owner : Owner) (only : Option (List ℤ)) : Code Bool :=
  if only = some [] then pure true
  else do
    let r ← call (.resetStale queue owner only)
    pure r.isSome

/-- `Store.SetDraining`: nothing to do without partitions. -/
def storeSetDraining (queue : String) (owner : Owner) (ps : List ℤ) (draining : Bool) :
    Code Bool :=
  if ps = [] then pure true
  else do
    let r ← call (.setDraining queue owner ps draining)
    pure r.isSome

/-- `Store.ReleasePartitions`: nothing to do without partitions. -/
def storeReleasePartitions (queue : String) (owner : Owner) (ps : List ℤ) : Code Bool :=
  if ps = [] then pure true
  else do
    let r ← call (.releasePartitions queue owner ps)
    pure r.isSome

/-- The first statement of `Store.Heartbeat`. -/
def membership (queue : String) (owner : Owner) (expires : ℤ) (member : Bool) : Code Bool :=
  if member then do
    let r ← call (.joinMembers queue owner expires)
    pure r.isSome
  else do
    let r ← call (.leaveMembers queue owner)
    pure r.isSome

/-- `Store.Heartbeat`. -/
def storeHeartbeat (queue : String) (owner : Owner) (now ttl : Time) (member : Bool) :
    Code (Option (List Lease × ℕ)) := do
  match ← membership queue owner (Time.unixMilli (now + ttl)) member with
  | false => pure none
  | true =>
    match ← call (.expireMembers queue now.unixMilli) with
    | none => pure none
    | some _ =>
      match ← call (.countMembers queue) with
      | none => pure none
      | some members =>
        match ← call (.renewLeases queue owner (Time.unixMilli (now + ttl))) with
        | none => pure none
        | some leases => pure (some (leases, members))

section Operations

variable (cfg : Config) (owner : Owner)

/-- `Consumer.Poll`. -/
def poll (now : Time) (limit : ℕ) : Code (Option (List Request)) := do
  lock .poll
  match ← call (.dispatch cfg.queue owner now limit) with
  | none =>
    let _ ← critical .markReconcile
    unlock
    pure none
  | some rows =>
    let _ ← critical (.track rows)
    unlock
    pure (some rows)

/-- `Consumer.Ack`. -/
def ack (cs : List Completion) (createdAt : ℤ) : Code (Option (List Bool)) := do
  match ← storeAck owner cs createdAt with
  | none => pure none
  | some acked =>
    let _ ← critical (.done (cs.map Completion.stamp))
    pure (some acked)

/-- `Consumer.Retry`. -/
def retry (stamp : Stamp) (notBefore : ℤ) (envelope : String) : Code (Option Bool) := do
  match ← call (.retry owner stamp notBefore envelope) with
  | none => pure none
  | some ok =>
    let _ ← critical (.done [stamp])
    pure (some ok)

/-- `Consumer.Undispatch` (with `notBefore` zero) and `Consumer.Defer`. -/
def undispatch (stamps : List Stamp) (notBefore : ℤ) : Code Bool := do
  match ← storeUndispatch owner stamps notBefore with
  | false =>
    let _ ← critical (.abandon stamps)
    pure false
  | true =>
    let _ ← critical (.done stamps)
    pure true

/-- `undispatchOrphans`. -/
def undispatchOrphans : Code Bool := do
  let stamps ← critical .readOrphans
  match ← storeUndispatch owner stamps 0 with
  | false => pure false
  | true =>
    let _ ← critical (.forgetOrphans stamps)
    pure true

/-- `reconcileInFlight`. -/
def reconcileInFlight : Code Bool := do
  match ← critical .readReconcile with
  | false => pure true
  | true =>
    match ← call (.inFlight cfg.queue owner) with
    | none => pure false
    | some stamped =>
      let untracked ← critical (.untracked stamped)
      match ← storeUndispatch owner untracked 0 with
      | false => pure false
      | true =>
        let _ ← critical .clearReconcile
        pure true

/-- `resetStale`. -/
def resetStale (now : Time) : Code Bool := do
  let parts ← critical (.beat now cfg.leaseTTL)
  storeResetStale cfg.queue owner parts

/-- `releaseDrained`. -/
def releaseDrained (now : Time) : Code Bool := do
  let release ← critical (.drained now cfg.drainTimeout)
  match ← storeReleasePartitions cfg.queue owner release with
  | false => pure false
  | true =>
    let _ ← critical (.dropLeases release)
    pure true

/-- The beginning of `Rebalance`: create the partitions once. -/
def ensureSeeded : Code Bool := do
  match ← critical .readSeeded with
  | true => pure true
  | false =>
    match ← call (.ensurePartitions cfg.queue) with
    | none => pure false
    | some _ =>
      let _ ← critical .setSeeded
      pure true

/-- The share of the partitions that falls to one of `members` dispatchers, rounded up. -/
def share (members : ℕ) : ℕ := (partitionCount + max 1 members - 1) / max 1 members

/-- `Rebalance` below its share: stop draining first, then acquire. -/
def grow (now : Time) (need : ℕ) (draining : List ℤ) : Code Bool := do
  let undrain := draining.take need
  match ← storeSetDraining cfg.queue owner undrain false with
  | false => pure false
  | true =>
    let _ ← critical (.undrain undrain)
    if need = undrain.length then pure true
    else
      match ← call (.acquirePartitions cfg.queue owner now cfg.leaseTTL
        (need - undrain.length)) with
      | none => pure false
      | some acquired =>
        let _ ← critical (.adopt acquired now)
        storeResetStale cfg.queue owner (some (List.map Lease.partition acquired))

/-- `Rebalance` above its share: drain some partitions. -/
def shrink (now : Time) (active : List ℤ) (n : ℕ) : Code Bool := do
  let drain ← critical (.drainCandidates active n)
  match ← storeSetDraining cfg.queue owner drain true with
  | false => pure false
  | true =>
    let _ ← critical (.drain drain now)
    releaseDrained cfg owner now

/-- `Rebalance`, once the leases are in sync: move towards the share. -/
def balance (now : Time) (target : ℕ) : Code Bool := do
  let ps ← critical .partitions
  if ps.1.length < target then grow cfg owner now (target - ps.1.length) ps.2
  else if target < ps.1.length then shrink cfg owner now ps.1 (ps.1.length - target)
  else pure true

/-- `Rebalance` from the heartbeat on. -/
def renewAndBalance (now : Time) : Code Bool := do
  let stopping : Bool ← critical .readStopping
  match ← storeHeartbeat cfg.queue owner now cfg.leaseTTL (!stopping) with
  | none => pure false
  | some (held, members) =>
    let _ ← critical (.syncLeases held now)
    match ← resetStale cfg owner now with
    | false => pure false
    | true =>
      match ← releaseDrained cfg owner now with
      | false => pure false
      | true => balance cfg owner now (if stopping then 0 else share members)

/-- `Rebalance` without the mutex. -/
def rebalanceBody (now : Time) : Code Bool := do
  match ← ensureSeeded cfg with
  | false => pure false
  | true =>
    let undispatched ← undispatchOrphans owner
    let reconciled ← reconcileInFlight cfg owner
    let balanced ← renewAndBalance cfg owner now
    pure (undispatched && reconciled && balanced)

/-- `Consumer.Rebalance`. -/
def rebalance (now : Time) : Code Bool := do
  lock .rebalance
  let ok ← rebalanceBody cfg owner now
  unlock
  pure ok

/-- `Consumer.Close`. -/
def close : Code Bool := do
  lock .close
  let undispatched ← undispatchOrphans owner
  match ← call (.leave cfg.queue owner) with
  | none =>
    unlock
    pure false
  | some _ =>
    let _ ← critical .clearLeases
    unlock
    pure undispatched

end Operations

inductive Op where
  | poll (now : Time) (limit : ℕ)
  | ack (cs : List Completion) (createdAt : ℤ)
  | retry (stamp : Stamp) (notBefore : ℤ) (envelope : String)
  | undispatch (stamps : List Stamp)
  | defer (stamps : List Stamp) (notBefore : ℤ)
  | abandon (stamps : List Stamp)
  | stop
  | rebalance (now : Time)
  | close

/-- The dispatches an operation speaks about. -/
def Op.stamps : Op → List Stamp
  | .ack cs _ => cs.map Completion.stamp
  | .retry stamp _ _ => [stamp]
  | .undispatch stamps => stamps
  | .defer stamps _ => stamps
  | .abandon stamps => stamps
  | _ => []

def Op.code (cfg : Config) (owner : Owner) : Op → Code Unit
  | .poll now limit => do
    let _ ← SqlQueue.poll cfg owner now limit
    pure ()
  | .ack cs createdAt => do
    let _ ← SqlQueue.ack owner cs createdAt
    pure ()
  | .retry stamp notBefore envelope => do
    let _ ← SqlQueue.retry owner stamp notBefore envelope
    pure ()
  | .undispatch stamps => do
    let _ ← SqlQueue.undispatch owner stamps 0
    pure ()
  | .defer stamps notBefore => do
    let _ ← SqlQueue.undispatch owner stamps notBefore
    pure ()
  | .abandon stamps => critical (.abandon stamps)
  | .stop => critical .setStopping
  | .rebalance now => do
    let _ ← SqlQueue.rebalance cfg owner now
    pure ()
  | .close => do
    let _ ← SqlQueue.close cfg owner
    pure ()

/-! ### The system -/

/-- A running operation of a consumer; consumers have distinct owner names. -/
structure Thread where
  consumer : Owner
  num : ℕ
deriving DecidableEq

/-- The shared state of all consumers. -/
structure Cluster where
  /-- The database and its history. -/
  world : World
  /-- The memory of every consumer. -/
  memory : Owner → Consumer
  /-- Which thread of a consumer holds `cycle`, and for which operation. -/
  cycle : Owner → Option (ℕ × CycleOp)
  /-- What the `Poll` that holds `cycle` has dispatched and not yet booked. -/
  polling : Owner → List Request
  /-- The consumer has crashed. -/
  dead : Owner → Bool

def Cluster.initial : Cluster where
  world := World.initial
  memory := fun _ => Consumer.new
  cycle := fun _ => none
  polling := fun _ => []
  dead := fun _ => false

inductive Outcome where
  /-- It takes effect and its answer arrives. -/
  | ok
  /-- It takes effect, but the caller sees an error. -/
  | lost
  /-- It has no effect and the caller sees an error. -/
  | failed
deriving DecidableEq, Repr

structure Choice where
  outcome : Outcome
  sched : Sched

/-- The requests a statement has dispatched, if it is a `Dispatch`. -/
def dispatchedBy : (s : Stmt) → Reply s → Option (List Request)
  | .dispatch .., rows => some rows
  | _, _ => none

namespace Cluster

/-- The mutex of a consumer changes hands. -/
def setCycle (σ : Cluster) (c : Owner) (holder : Option (ℕ × CycleOp)) : Cluster :=
  { σ with cycle := Function.update σ.cycle c holder }

/-- The cluster after a statement of a consumer has taken effect. -/
def afterCall (σ : Cluster) (c : Owner) (s : Stmt) (r : Reply s) (w : World) : Cluster :=
  { σ with
    world := w
    polling := match dispatchedBy s r with
      | some rows => Function.update σ.polling c rows
      | none => σ.polling }

/-- The cluster after a critical section of a consumer.  Booking the answer of `Dispatch`, or the
lack of one, is the last thing `Poll` does. -/
def afterCritical (σ : Cluster) (c : Owner) (s : Critical) : Cluster :=
  { σ with
    memory := Function.update σ.memory c (s.run (σ.memory c)).2
    polling := match s with
      | .track _ => Function.update σ.polling c []
      | .markReconcile => Function.update σ.polling c []
      | _ => σ.polling }

def exec (t : Thread) : (i : Action) → Choice → Cluster → Option (i.Reply × Cluster)
  | .lock op, _, σ =>
    match σ.cycle t.consumer with
    | none => some ((), σ.setCycle t.consumer (some (t.num, op)))
    | some _ => none
  | .unlock, _, σ => some ((), σ.setCycle t.consumer none)
  | .critical s, _, σ => some ((s.run (σ.memory t.consumer)).1, σ.afterCritical t.consumer s)
  | .call s, ch, σ =>
    match ch.outcome with
    | .ok => (σ.world.exec ch.sched s).map fun rw =>
      (some rw.1, σ.afterCall t.consumer s rw.1 rw.2)
    | .lost => (σ.world.exec ch.sched s).map fun rw =>
      (none, σ.afterCall t.consumer s rw.1 rw.2)
    | .failed => some (none, σ)

end Cluster

/-- What happens outside the consumers. -/
inductive EnvStep where
  /-- A consumer crashes. -/
  | crash (c : Owner)
  /-- A producer, or a result poller, runs a statement. -/
  | client (sched : Sched) (s : Stmt)

/-- The statements that are not issued by consumers. -/
def Stmt.isClient : Stmt → Bool
  | .enqueue .. => true
  | .cancel _ => true
  | .expireRoute .. => true
  | .popResults .. => true
  | .expireResults .. => true
  | .burnAttempts _ => true
  | _ => false

/-- The stamp names a dispatch that has happened. -/
def World.hasDispatched (w : World) (stamp : Stamp) : Bool :=
  w.log.any fun e => match e with
    | .dispatched _ q => q.stamp = stamp
    | _ => false

/-- A crash ends what the consumer was doing; its row locks and its mutex go with it. -/
def Cluster.crash (σ : Cluster) (c : Owner) : Cluster :=
  { σ with
    dead := Function.update σ.dead c true
    cycle := Function.update σ.cycle c none
    polling := Function.update σ.polling c [] }

def Cluster.envStep : EnvStep → Cluster → Option Cluster
  | .crash c, σ => some (σ.crash c)
  | .client sched s, σ =>
    if s.isClient then (σ.world.exec sched s).map fun rw => { σ with world := rw.2 } else none

/-- Any number of consumers, configured by `cfg`, on one database.  A consumer that is alive runs
any operations; a stamp an operation is given names a dispatch, which is all a caller can have. -/
def system (cfg : Owner → Config) :
    ThreadSystem Action Action.Reply Thread Cluster Choice Op EnvStep where
  exec := Cluster.exec
  program t o := o.code (cfg t.consumer) t.consumer
  starts t o σ := !σ.dead t.consumer && o.stamps.all σ.world.hasDispatched
  env := Cluster.envStep
  kills
    | .crash c, t => t.consumer = c
    | .client .., _ => false

/-- A thread runs an operation while nobody else acts and no store call fails.  No operation has
more than 31 actions, and steps that are not possible any more are skipped by `ThreadSystem.run`. -/
def alone (t : Thread) (o : Op) : List (Label Thread Choice Op EnvStep) :=
  .start t o :: List.replicate 31 (.act t ⟨.ok, Sched.plain⟩) ++ [.finish t]

/-- The queue `q`, with leases of thirty seconds. -/
def queueConfig : Owner → Config := fun _ => ⟨"q", 30000000000, 60000000000⟩

end LlmdAsync.SqlQueue
