import LlmdAsync.Foundation.Threads
import LlmdAsync.SqlQueue.History

/-!
# The consumer

`producer-sql/sqlqueue/consumer.go`: the memory of one dispatcher on one queue, and the code that
works on it.

The memory is guarded by the mutex `mu`, which is never held across a call to the store, so the code
is a sequence of critical sections (`Critical`, each a function on the memory) and store calls
(`Stmt`).  `Poll`, `Rebalance` and `Close` hold the second mutex `cycle` from beginning to end.  A
store call that returns an error may or may not have taken effect; its answer is `none`.
-/

namespace LlmdAsync.SqlQueue

/-! ### Memory -/

/-- `tracked`, an entry of the in-flight map with its key. -/
structure Tracked where
  key : Key
  partition : ℤ
  epoch : ℤ
  attempt : ℤ
deriving DecidableEq, Repr

/-- The zero `time.Time`, the beginning of the year one. -/
def Time.zero : Time := -62135596800000000000

/-- `partitionState`, an entry of the lease map with its partition. -/
structure PartitionState where
  partition : ℤ
  epoch : ℤ
  acquiredAt : Time
  draining : Bool
  drainSince : Time
  inflight : ℕ
deriving DecidableEq, Repr

/-- `&partitionState{epoch: epoch, acquiredAt: now}`. -/
def PartitionState.fresh (partition epoch : ℤ) (now : Time) : PartitionState where
  partition := partition
  epoch := epoch
  acquiredAt := now
  draining := false
  drainSince := Time.zero
  inflight := 0

/-- The mutable fields of `Consumer`. -/
structure Consumer where
  seeded : Bool
  stopping : Bool
  reconcile : Bool
  beats : ℕ
  leases : Table PartitionState.partition
  inflight : Table Tracked.key
  orphans : Table Stamp.key

namespace Consumer

/-- `NewConsumer`. -/
def new : Consumer where
  seeded := false
  stopping := false
  reconcile := false
  beats := 0
  leases := .empty
  inflight := .empty
  orphans := .empty

/-- Change the in-flight count of the lease of a partition, if it is held at this epoch. -/
def adjust (c : Consumer) (partition epoch : ℤ) (f : ℕ → ℕ) : Consumer :=
  { c with
    leases := c.leases.map (fun st =>
      if st.partition = partition ∧ st.epoch = epoch then { st with inflight := f st.inflight }
      else st) (fun st => by split <;> rfl) }

/-- `untrackLocked`. -/
def untrackLocked (c : Consumer) (t : Tracked) : Consumer :=
  { c with inflight := c.inflight.erase t.key }.adjust t.partition t.epoch fun n => n - 1

/-- The entry `Poll` makes for a request. -/
def tracked (r : Request) : Tracked := ⟨r.key, r.partition, r.epoch, r.attempt⟩

/-- One round of the loop of `Poll`. -/
def trackOne (c : Consumer) (r : Request) : Consumer :=
  let c := match c.inflight.get? r.key with
    | some prev => c.untrackLocked prev
    | none => c
  { c with
    orphans := c.orphans.erase r.key
    inflight := c.inflight.put (tracked r) }.adjust r.partition r.epoch fun n => n + 1

/-- The loop of `Poll` over the dispatched requests. -/
def track (c : Consumer) (rows : List Request) : Consumer := rows.foldl trackOne c

/-- One round of the loop of `doneStamps`. -/
def doneOne (c : Consumer) (stamp : Stamp) : Consumer :=
  match c.inflight.get? stamp.key with
  | some t => if t.attempt = stamp.attempt then c.untrackLocked t else c
  | none => c

/-- `doneStamps`. -/
def doneStamps (c : Consumer) (stamps : List Stamp) : Consumer := stamps.foldl doneOne c

/-- One round of the loop of `Abandon`. -/
def abandonOne (c : Consumer) (stamp : Stamp) : Consumer :=
  match c.inflight.get? stamp.key with
  | some t =>
    if t.attempt = stamp.attempt then
      { c with orphans := c.orphans.put ⟨stamp.key, t.attempt⟩ }.untrackLocked t
    else c
  | none => c

/-- `Abandon`. -/
def abandon (c : Consumer) (stamps : List Stamp) : Consumer := stamps.foldl abandonOne c

/-- One round of the last loop of `undispatchOrphans`. -/
def forgetOne (c : Consumer) (stamp : Stamp) : Consumer :=
  match c.orphans.get? stamp.key with
  | some o => if o.attempt = stamp.attempt then { c with orphans := c.orphans.erase stamp.key }
    else c
  | none => c

/-- The last loop of `undispatchOrphans`. -/
def forgetOrphans (c : Consumer) (stamps : List Stamp) : Consumer := stamps.foldl forgetOne c

/-- The stamps `reconcileInFlight` finds in the store and not in the in-flight map. -/
def untracked (c : Consumer) (stamped : List Stamp) : List Stamp :=
  stamped.filter fun st => (c.inflight.get? st.key).all fun t => t.attempt ≠ st.attempt

/-- The state `syncLeases` keeps for a lease it found in the store. -/
def syncLease (c : Consumer) (now : Time) (l : Lease) : PartitionState :=
  let st := match c.leases.get? l.partition with
    | some st => if st.epoch = l.epoch then st else .fresh l.partition l.epoch now
    | none => .fresh l.partition l.epoch now
  { st with
    drainSince := if l.draining && !st.draining then now else st.drainSince
    draining := l.draining }

lemma partition_syncLease (c : Consumer) (now : Time) (l : Lease) :
    (c.syncLease now l).partition = l.partition := by
  unfold syncLease
  cases h : c.leases.get? l.partition with
  | none => rfl
  | some st =>
    by_cases he : st.epoch = l.epoch
    · simp only [if_pos he]
      exact Table.key_of_get? h
    · simp only [if_neg he]
      rfl

/-- `syncLeases`. -/
def syncLeases (c : Consumer) (held : List Lease) (now : Time) : Consumer :=
  { c with leases := held.foldl (fun next l => next.put (c.syncLease now l)) .empty }

/-- `sort.Ints`. -/
def sortInts (ps : List ℤ) : List ℤ := ps.insertionSort fun a b => a ≤ b

/-- `fullResetEvery`. -/
def fullResetEvery : ℕ := 10

/-- The partitions `resetStale` looks at, `none` for all of them. -/
def resetPartitions (c : Consumer) (now leaseTTL : Time) : Option (List ℤ) :=
  if c.beats % fullResetEvery ≠ 0 then
    some (sortInts ((c.leases.rows.filter fun st => now - st.acquiredAt < 2 * leaseTTL).map
      PartitionState.partition))
  else none

/-- The partitions `releaseDrained` may give up. -/
def drained (c : Consumer) (now drainTimeout : Time) : List ℤ :=
  sortInts ((c.leases.rows.filter fun st => st.draining &&
    (st.inflight = 0 || drainTimeout ≤ now - st.drainSince)).map PartitionState.partition)

def dropLeases (c : Consumer) (ps : List ℤ) : Consumer :=
  { c with leases := ps.foldl Table.erase c.leases }

/-- `partitionsLocked`. -/
def partitionsLocked (c : Consumer) : List ℤ × List ℤ :=
  (sortInts ((c.leases.rows.filter fun st => !st.draining).map PartitionState.partition),
    sortInts ((c.leases.rows.filter fun st => st.draining).map PartitionState.partition))

/-- The in-flight count of a partition. -/
def inflightOf (c : Consumer) (p : ℤ) : ℕ := ((c.leases.get? p).map PartitionState.inflight).getD 0

/-- The order of `drainCandidatesLocked`: fewest in flight first, then the highest partition. -/
def drainBefore (c : Consumer) (a b : ℤ) : Prop :=
  c.inflightOf a < c.inflightOf b ∨ (c.inflightOf a = c.inflightOf b ∧ b ≤ a)

instance (c : Consumer) : DecidableRel c.drainBefore :=
  fun _ _ => inferInstanceAs (Decidable (_ ∨ _))

/-- `drainCandidatesLocked`. -/
def drainCandidatesLocked (c : Consumer) (active : List ℤ) (n : ℕ) : List ℤ :=
  sortInts ((active.insertionSort c.drainBefore).take n)

/-- Record that partitions no longer drain. -/
def undrain (c : Consumer) (ps : List ℤ) : Consumer :=
  { c with
    leases := c.leases.map (fun st => if st.partition ∈ ps then { st with draining := false }
      else st) (fun st => by split <;> rfl) }

/-- Record that partitions drain since `now`. -/
def drain (c : Consumer) (ps : List ℤ) (now : Time) : Consumer :=
  { c with
    leases := c.leases.map (fun st => if st.partition ∈ ps then
      { st with draining := true, drainSince := now } else st) (fun st => by split <;> rfl) }

def adopt (c : Consumer) (acquired : List Lease) (now : Time) : Consumer :=
  { c with
    leases := acquired.foldl (fun t l => t.put (.fresh l.partition l.epoch now)) c.leases }

end Consumer

/-! ### Critical sections -/

/-- The critical sections of `mu`. -/
inductive Critical where
  | readSeeded
  | setSeeded
  | readStopping
  | setStopping
  | track (rows : List Request)
  | markReconcile
  | done (stamps : List Stamp)
  | abandon (stamps : List Stamp)
  | readOrphans
  | forgetOrphans (stamps : List Stamp)
  | readReconcile
  | untracked (stamped : List Stamp)
  | clearReconcile
  | syncLeases (held : List Lease) (now : Time)
  | beat (now leaseTTL : Time)
  | drained (now drainTimeout : Time)
  | dropLeases (ps : List ℤ)
  | partitions
  | undrain (ps : List ℤ)
  | adopt (acquired : List Lease) (now : Time)
  | drainCandidates (active : List ℤ) (n : ℕ)
  | drain (ps : List ℤ) (now : Time)
  | clearLeases

def Critical.Reply : Critical → Type
  | .readSeeded => Bool
  | .readStopping => Bool
  | .readOrphans => List Stamp
  | .readReconcile => Bool
  | .untracked _ => List Stamp
  | .beat .. => Option (List ℤ)
  | .drained .. => List ℤ
  | .partitions => List ℤ × List ℤ
  | .drainCandidates .. => List ℤ
  | _ => Unit

def Critical.run : (s : Critical) → Consumer → s.Reply × Consumer
  | .readSeeded, c => (c.seeded, c)
  | .setSeeded, c => ((), { c with seeded := true })
  | .readStopping, c => (c.stopping, c)
  | .setStopping, c => ((), { c with stopping := true })
  | .track rows, c => ((), c.track rows)
  | .markReconcile, c => ((), { c with reconcile := true })
  | .done stamps, c => ((), c.doneStamps stamps)
  | .abandon stamps, c => ((), c.abandon stamps)
  | .readOrphans, c => (c.orphans.rows, c)
  | .forgetOrphans stamps, c => ((), c.forgetOrphans stamps)
  | .readReconcile, c => (c.reconcile, c)
  | .untracked stamped, c => (c.untracked stamped, c)
  | .clearReconcile, c => ((), { c with reconcile := false })
  | .syncLeases held now, c => ((), c.syncLeases held now)
  | .beat now leaseTTL, c =>
    ({ c with beats := c.beats + 1 }.resetPartitions now leaseTTL, { c with beats := c.beats + 1 })
  | .drained now drainTimeout, c => (c.drained now drainTimeout, c)
  | .dropLeases ps, c => ((), c.dropLeases ps)
  | .partitions, c => (c.partitionsLocked, c)
  | .undrain ps, c => ((), c.undrain ps)
  | .adopt acquired now, c => ((), c.adopt acquired now)
  | .drainCandidates active n, c => (c.drainCandidatesLocked active n, c)
  | .drain ps now, c => ((), c.drain ps now)
  | .clearLeases, c => ((), { c with leases := .empty })

end LlmdAsync.SqlQueue
