import LlmdAsync.SqlQueue.Store

/-!
# Interleaved statements and their history

A `World` is the database together with the log of everything that ever happened to a request or a
partition.  Its steps are single statements of `Store`, issued by any owner with any arguments in
any order.  A statement whose caller sees an error is still such a step if it took effect, and no
step if it did not; a caller that crashes simply issues no further statement.

The log is read per key (`Event.key?`) or per partition (`Event.partition?`).
-/

namespace LlmdAsync.SqlQueue

/-- One statement with its arguments.  `Heartbeat` is four statements, `PopResults` is two. -/
inductive Stmt where
  | enqueue (createdAt : ℤ) (reqs : List Request)
  | dispatch (queue : String) (owner : Owner) (now : Time) (limit : ℕ)
  | inFlight (queue : String) (owner : Owner)
  | resetStale (queue : String) (owner : Owner) (only : Option (List ℤ))
  | undispatch (owner : Owner) (stamps : List Stamp) (notBefore : ℤ)
  | retry (owner : Owner) (stamp : Stamp) (notBefore : ℤ) (envelope : String)
  | cancel (ids : List String)
  | ack (owner : Owner) (completions : List Completion) (createdAt : ℤ)
  | expireRoute (route : String) (now : ℤ)
  | popResults (route : String) (limit : ℕ)
  | expireResults (now : ℤ) (limit : ℕ)
  | ensurePartitions (queue : String)
  | joinMembers (queue : String) (owner : Owner) (expires : ℤ)
  | leaveMembers (queue : String) (owner : Owner)
  | expireMembers (queue : String) (nowMs : ℤ)
  | countMembers (queue : String)
  | renewLeases (queue : String) (owner : Owner) (expires : ℤ)
  | acquirePartitions (queue : String) (owner : Owner) (now ttl : Time) (limit : ℕ)
  | setDraining (queue : String) (owner : Owner) (partitions : List ℤ) (draining : Bool)
  | releasePartitions (queue : String) (owner : Owner) (partitions : List ℤ)
  | leave (queue : String) (owner : Owner)
  /-- A `Dispatch` that rolled back after it drew attempts: sequences are not transactional. -/
  | burnAttempts (n : ℕ)

def Reply : Stmt → Type
  | .dispatch .. => List Request
  | .inFlight .. => List Stamp
  | .retry .. => Bool
  | .ack .. => List Bool
  | .popResults .. => List ResultRow
  | .expireResults .. => ℕ
  | .countMembers .. => ℕ
  | .renewLeases .. => List Lease
  | .acquirePartitions .. => List Lease
  | _ => Unit

/-- Run a statement; `none` means that it raised an error and changed nothing. -/
def Database.exec (db : Database) (sched : Sched) : (s : Stmt) → Option (Reply s × Database)
  | .enqueue createdAt reqs => (db.enqueue createdAt reqs).map fun db' => ((), db')
  | .dispatch queue owner now limit => some (db.dispatch sched queue owner.name now limit)
  | .inFlight queue owner => some (db.inFlight queue owner.name, db)
  | .resetStale queue owner only => some ((), db.resetStale sched queue owner.name only)
  | .undispatch owner stamps notBefore => some ((), db.undispatch owner.name stamps notBefore)
  | .retry owner stamp notBefore envelope => some (db.retry owner.name stamp notBefore envelope)
  | .cancel ids => some ((), db.cancel ids)
  | .ack owner completions createdAt => some (db.ack owner.name completions createdAt)
  | .expireRoute route now => some ((), db.expireRoute route now)
  | .popResults route limit => some (db.popResults route limit)
  | .expireResults now limit => some (db.expireResults now limit)
  | .ensurePartitions queue => some ((), db.ensurePartitions queue)
  | .joinMembers queue owner expires => some ((), db.joinMembers queue owner.name expires)
  | .leaveMembers queue owner => some ((), db.leaveMembers queue owner.name)
  | .expireMembers queue nowMs => some ((), db.expireMembers queue nowMs)
  | .countMembers queue => some (db.countMembers queue, db)
  | .renewLeases queue owner expires => some (db.renewLeases queue owner.name expires)
  | .acquirePartitions queue owner now ttl limit =>
    some (db.acquirePartitions sched queue owner.name now ttl limit)
  | .setDraining queue owner ps draining => some ((), db.setDraining queue owner.name ps draining)
  | .releasePartitions queue owner ps => some ((), db.releasePartitions queue owner.name ps)
  | .leave queue owner => some ((), db.leave queue owner.name)
  | .burnAttempts n => some ((), { db with nextAttempt := db.nextAttempt + n })

/-- The events a statement causes when it takes effect on `db`. -/
def Database.events (db : Database) (sched : Sched) : Stmt → List Event
  | .enqueue _ reqs => reqs.map fun r => .enqueued r.key
  | .dispatch queue owner now limit =>
    (db.dispatch sched queue owner.name now limit).1.map (.dispatched owner.name)
  | .resetStale queue owner only =>
    (db.requests.rows.filter (db.stale sched queue owner.name only)).map fun r =>
      .reset ⟨r.key, r.dispatchAttempt⟩
  | .undispatch owner stamps _ =>
    (db.requests.rows.filter fun r => (Database.uniqueStamps stamps).any
      (db.carries owner.name · r)).map fun r => .requeued ⟨r.key, r.dispatchAttempt⟩
  | .retry owner stamp _ _ =>
    (db.requests.rows.filter (db.carries owner.name stamp)).map fun r =>
      .requeued ⟨r.key, r.dispatchAttempt⟩
  | .ack owner completions createdAt =>
    (db.ackResults owner.name completions createdAt).map fun ar => .acked ar.1 ar.2
  | .acquirePartitions queue owner now ttl limit =>
    (db.acquirePartitions sched queue owner.name now ttl limit).1.map
      (.acquired queue owner.name)
  | _ => []

/-- The request an event is about. -/
def Event.key? : Event → Option Key
  | .enqueued key => some key
  | .dispatched _ request => some request.key
  | .requeued stamp => some stamp.key
  | .reset stamp => some stamp.key
  | .acked _ result => some result.key
  | .acquired .. => none

/-- The partition an event is about. -/
def Event.partition? : Event → Option PartitionKey
  | .acquired queue _ lease => some ⟨queue, lease.partition⟩
  | _ => none

/-- The part of a log that is about one key. -/
def aboutKey (k : Key) (log : List Event) : List Event := log.filter fun e => e.key? = some k

/-- The part of a log that is about one partition. -/
def aboutPartition (pk : PartitionKey) (log : List Event) : List Event :=
  log.filter fun e => e.partition? = some pk

@[simp] lemma aboutKey_append (k : Key) (l l' : List Event) :
    aboutKey k (l ++ l') = aboutKey k l ++ aboutKey k l' := List.filter_append ..

@[simp] lemma aboutPartition_append (pk : PartitionKey) (l l' : List Event) :
    aboutPartition pk (l ++ l') = aboutPartition pk l ++ aboutPartition pk l' :=
  List.filter_append ..

/-- The database and the log of all events, oldest first. -/
structure World where
  db : Database
  log : List Event

def World.initial : World := ⟨Database.initial, []⟩

def World.exec (w : World) (sched : Sched) (s : Stmt) : Option (Reply s × World) :=
  (w.db.exec sched s).map fun rd => (rd.1, ⟨rd.2, w.log ++ w.db.events sched s⟩)

def World.Step (w w' : World) : Prop :=
  ∃ sched s r, w.exec sched s = some (r, w')

/-- Some finite interleaving of statements leads from the migrated database to this world. -/
def World.Reachable (w : World) : Prop := Relation.ReflTransGen World.Step World.initial w

lemma World.exec_eq_some {w w' : World} {sched : Sched} {s : Stmt} {r : Reply s} :
    w.exec sched s = some (r, w') ↔
      w.db.exec sched s = some (r, w'.db) ∧ w'.log = w.log ++ w.db.events sched s := by
  unfold World.exec
  constructor
  · intro h
    obtain ⟨rd, hrd, heq⟩ := Option.map_eq_some_iff.mp h
    cases heq
    exact ⟨hrd, rfl⟩
  · rintro ⟨h, hlog⟩
    rw [h, Option.map_some, ← hlog]

/-- A property of the first world that every statement preserves holds in every reachable world. -/
theorem World.Reachable.invariant {P : World → Prop} (hinit : P World.initial)
    (hstep : ∀ {w w' : World} {sched : Sched} {s : Stmt} {r : Reply s}, P w →
      w.db.exec sched s = some (r, w'.db) → w'.log = w.log ++ w.db.events sched s → P w')
    {w : World} (h : w.Reachable) : P w := by
  induction h with
  | refl => exact hinit
  | tail _ hs ih =>
    obtain ⟨sched, s, r, hexec⟩ := hs
    obtain ⟨hdb, hlog⟩ := World.exec_eq_some.mp hexec
    exact hstep ih hdb hlog

/-- Issue statements one after the other; one that fails leaves the world as it is. -/
def World.run (w : World) : List Stmt → World
  | [] => w
  | s :: l => World.run (((w.exec Sched.plain s).map Prod.snd).getD w) l

lemma World.Reachable.run {w : World} (h : w.Reachable) (l : List Stmt) :
    (w.run l).Reachable := by
  induction l generalizing w with
  | nil => exact h
  | cons s l ih =>
    refine ih ?_
    cases hexec : w.exec Sched.plain s with
    | none => exact h
    | some rw => exact h.tail ⟨Sched.plain, s, rw.1, hexec⟩

lemma World.reachable_run (l : List Stmt) : (World.initial.run l).Reachable :=
  World.Reachable.run Relation.ReflTransGen.refl l

end LlmdAsync.SqlQueue
