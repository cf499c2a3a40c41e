import LlmdAsync.SqlQueue.Schema

/-!
# The statements of `Store`

Every statement of `producer-sql/sqlqueue/store.go` as a function on the database.  Postgres leaves
a few things open: which rows another transaction holds locked at that moment (`SKIP LOCKED`), and
the physical order in which rows with equal sort keys are visited.  A `Sched` fixes these choices,
and the results hold for all of them.

Each statement also reports the `Event`s it causes; the log of all events is the history against
which the delivery guarantees are stated.
-/

namespace LlmdAsync.SqlQueue

/-- The choices Postgres makes while it runs one statement. -/
structure Sched where
  /-- The requests another transaction holds locked. -/
  locked : Key → Bool
  /-- The partitions another transaction holds locked. -/
  lockedPartition : PartitionKey → Bool
  /-- The physical position of a request, which decides between equal sort keys. -/
  scan : Key → ℕ

/-- No row is locked, and equal sort keys keep the order of the table. -/
def Sched.plain : Sched := ⟨fun _ => false, fun _ => false, fun _ => 0⟩

inductive Event where
  /-- `Enqueue` inserted a row for the key. -/
  | enqueued (key : Key)
  /-- `Dispatch` by `owner` stamped a row; `request` is the row as it was returned. -/
  | dispatched (owner : String) (request : Request)
  /-- `Undispatch`, `Defer` or `Retry` returned a stamped row to pending. -/
  | requeued (stamp : Stamp)
  /-- `ResetStale` returned a row stamped by an older epoch to pending. -/
  | reset (stamp : Stamp)
  /-- `Ack` deleted the row with this attempt and inserted this result. -/
  | acked (attempt : ℤ) (result : ResultRow)
  /-- `AcquirePartitions` by `owner` created a lease. -/
  | acquired (queue : String) (owner : String) (lease : Lease)
deriving DecidableEq, Repr

namespace Database

/-! ### Enqueue -/

/-- The row `Enqueue` inserts for the request at position `i` of the call. -/
def enqueueRow (createdAt : ℤ) (i : ℕ) (r : Request) : RequestRow where
  key := r.key
  queue := r.queue
  partition := partitionOf r.key.id
  deadline := r.deadline
  notBefore := 0
  dispatchEpoch := 0
  dispatchAttempt := 0
  cancelled := false
  envelope := r.envelope
  payload := r.payload
  createdAt := createdAt + i

/-- The rows of one insert statement: the chunk of the requests that begins at `start`. -/
def enqueueChunkRows (createdAt : ℤ) (reqs : List Request) (start : ℕ) : List RequestRow :=
  ((reqs.drop start).take enqueueChunk).zipIdx.map fun ri =>
    enqueueRow createdAt (start + ri.2) ri.1

/-- The positions at which the chunks of a call begin. -/
def enqueueStarts (reqs : List Request) : List ℕ :=
  (List.range ((reqs.length + enqueueChunk - 1) / enqueueChunk)).map fun j => j * enqueueChunk

/-- `Enqueue`: one transaction that inserts the requests chunk by chunk, all of them or none. -/
def enqueue (db : Database) (createdAt : ℤ) (reqs : List Request) : Option Database :=
  ((enqueueStarts reqs).foldlM
    (fun t start => Table.insertAll t (enqueueChunkRows createdAt reqs start)) db.requests).map
    fun t => { db with requests := t }

/-! ### Dispatch -/

/-- The partitions of `queue` that `owner` holds and is not draining. -/
def activePartitions (db : Database) (queue owner : String) : List ℤ :=
  (db.partitions.rows.filter fun p =>
    p.key.queue = queue && p.owner = owner && !p.draining).map fun p => p.key.partition

/-- `ORDER BY deadline, created_at`, ties in physical order. -/
def dispatchBefore (sched : Sched) (a b : RequestRow) : Prop :=
  a.deadline < b.deadline ∨ (a.deadline = b.deadline ∧ (a.createdAt < b.createdAt ∨
    (a.createdAt = b.createdAt ∧ sched.scan a.key ≤ sched.scan b.key)))

instance (sched : Sched) : DecidableRel (dispatchBefore sched) :=
  fun _ _ => inferInstanceAs (Decidable (_ ∨ _))

/-- The row satisfies the `WHERE` clause of the `picked` query of `async_dispatch`. -/
def dispatchable (db : Database) (owner queue : String) (now : ℤ) (r : RequestRow) : Bool :=
  r.queue = queue && r.dispatchEpoch = 0 && r.notBefore ≤ now &&
    r.partition ∈ db.activePartitions queue owner

/-- The `picked` rows of `async_dispatch`. -/
def picked (db : Database) (sched : Sched) (owner queue : String) (now : ℤ) (limit : ℕ) :
    List RequestRow :=
  ((db.requests.rows.filter fun r =>
    db.dispatchable owner queue now r && !sched.locked r.key).insertionSort
      (dispatchBefore sched)).take limit

/-- The join of the `UPDATE` in `async_dispatch`: the row's partition is held and not draining. -/
def joinsActive (db : Database) (owner : String) (r : RequestRow) : Bool :=
  (db.partitionOfRow r).any fun p => p.owner = owner && !p.draining

/-- The keys the `UPDATE` visits, in the order in which it draws attempts for them. -/
def draws (db : Database) (sched : Sched) (owner queue : String) (now : ℤ) (limit : ℕ) :
    List Key :=
  (((db.picked sched owner queue now limit).filter (db.joinsActive owner)).map
    RequestRow.key).insertionSort fun a b => sched.scan a ≤ sched.scan b

/-- Stamp a visited row with its partition's epoch and a fresh attempt. -/
def stampRow (db : Database) (draws : List Key) (r : RequestRow) : RequestRow :=
  match db.partitionOfRow r with
  | some p =>
    if r.key ∈ draws then
      { r with dispatchEpoch := p.epoch, dispatchAttempt := db.nextAttempt + draws.idxOf r.key }
    else r
  | none => r

@[simp] lemma key_stampRow (db : Database) (draws : List Key) (r : RequestRow) :
    (db.stampRow draws r).key = r.key := by
  unfold stampRow
  split
  · split <;> rfl
  · rfl

/-- The order in which `Dispatch` returns requests. -/
def requestBefore (a b : Request) : Prop :=
  a.deadline < b.deadline ∨ (a.deadline = b.deadline ∧ a.createdAt ≤ b.createdAt)

instance : DecidableRel requestBefore := fun _ _ => inferInstanceAs (Decidable (_ ∨ _))

/-- `Dispatch`: `async_dispatch` stamps up to `limit` pending rows, and the caller sorts them. -/
def dispatch (db : Database) (sched : Sched) (queue owner : String) (now : Time) (limit : ℕ) :
    List Request × Database :=
  let draws := db.draws sched owner queue now.unix limit
  let requests := db.requests.map (db.stampRow draws) (db.key_stampRow draws)
  let stamped := (requests.rows.filter fun r => r.key ∈ draws).map RequestRow.toRequest
  (stamped.insertionSort requestBefore,
    { db with requests := requests, nextAttempt := db.nextAttempt + draws.length })

/-! ### Rows in flight -/

/-- `InFlight`: the stamps of the current epoch in the partitions `owner` holds. -/
def inFlight (db : Database) (queue owner : String) : List Stamp :=
  (db.requests.rows.filter fun r => r.queue = queue && 0 < r.dispatchEpoch &&
    (db.partitionOfRow r).any fun p => p.owner = owner && r.dispatchEpoch = p.epoch).map
      fun r => ⟨r.key, r.dispatchAttempt⟩

/-- The row is stamped by an older epoch of a partition `owner` holds, and `ResetStale` looks at
its partition. -/
def stale (db : Database) (sched : Sched) (queue owner : String) (only : Option (List ℤ))
    (r : RequestRow) : Bool :=
  r.queue = queue && 0 < r.dispatchEpoch &&
    (db.partitionOfRow r).any (fun p => p.owner = owner && r.dispatchEpoch < p.epoch) &&
    only.all (fun ps => r.partition ∈ ps) && !sched.locked r.key

/-- `UPDATE async_requests SET dispatch_epoch = 0`. -/
def unstampRow (r : RequestRow) : RequestRow := { r with dispatchEpoch := 0 }

/-- `ResetStale`; `only` is `none` when the caller passes a nil slice. -/
def resetStale (db : Database) (sched : Sched) (queue owner : String) (only : Option (List ℤ)) :
    Database :=
  { db with
    requests := db.requests.map (fun r =>
      if db.stale sched queue owner only r then unstampRow r else r) (fun r => by
        split <;> rfl) }

/-- The row still carries the stamp, in a partition `owner` holds. -/
def carries (db : Database) (owner : String) (stamp : Stamp) (r : RequestRow) : Bool :=
  r.key = stamp.key && 0 < r.dispatchEpoch && r.dispatchAttempt = stamp.attempt &&
    db.heldBy owner r

/-- `uniqueStamps`. -/
def uniqueStamps (stamps : List Stamp) : List Stamp := stamps.eraseDups

/-- `undispatch`, the statement of `Undispatch` (with `notBefore` zero) and of `Defer`. -/
def undispatch (db : Database) (owner : String) (stamps : List Stamp) (notBefore : ℤ) :
    Database :=
  { db with
    requests := db.requests.map (fun r =>
      if (uniqueStamps stamps).any (db.carries owner · r) then
        { r with dispatchEpoch := 0, notBefore := max r.notBefore notBefore }
      else r) (fun r => by split <;> rfl) }

/-- `Retry`, with the number of rows it matched turned into the answer of `oneRow`. -/
def retry (db : Database) (owner : String) (stamp : Stamp) (notBefore : ℤ) (envelope : String) :
    Bool × Database :=
  (db.requests.rows.countP (db.carries owner stamp) = 1,
    { db with
      requests := db.requests.map (fun r =>
        if db.carries owner stamp r then
          { r with dispatchEpoch := 0, notBefore := notBefore, envelope := envelope }
        else r) (fun r => by split <;> rfl) })

/-- `Cancel`; empty ids are dropped by the caller. -/
def cancel (db : Database) (ids : List String) : Database :=
  { db with
    requests := db.requests.map (fun r =>
      if r.key.id ∈ ids.filter (· ≠ "") then { r with cancelled := true } else r)
      (fun r => by split <;> rfl) }

/-! ### Ack -/

/-- One round of the loop of `Ack` that keeps, per key, the completion with the largest attempt at
the position of the first one; every kept completion carries the index it came from. -/
def keepLargest (unique : List (Completion × ℕ)) (ci : Completion × ℕ) : List (Completion × ℕ) :=
  if unique.any fun u => u.1.key = ci.1.key then
    unique.map fun u =>
      if u.1.key = ci.1.key then (if u.1.attempt < ci.1.attempt then ci else u) else u
  else unique ++ [ci]

/-- The completions `Ack` sends to the database, one per key. -/
def uniqueCompletions (completions : List Completion) : List (Completion × ℕ) :=
  completions.zipIdx.foldl keepLargest []

/-- The row is deleted by the completion: the attempt matches, and the partition is still held at
the epoch of the stamp. -/
def completes (db : Database) (owner : String) (c : Completion) (r : RequestRow) : Bool :=
  r.key = c.key && 0 < r.dispatchEpoch && r.dispatchAttempt = c.attempt &&
    (db.partitionOfRow r).any fun p => p.owner = owner && p.epoch = r.dispatchEpoch

/-- The rows the `done` delete of `Ack` returns. -/
def doneRows (db : Database) (owner : String) (input : List Completion) : List RequestRow :=
  db.requests.rows.filter fun r => input.any (db.completes owner · r)

/-- The completions joined with the deleted rows: what `Ack` inserts into `async_results`. -/
def doneCompletions (db : Database) (owner : String) (input : List Completion) :
    List Completion :=
  (db.doneRows owner input).flatMap fun r => input.filter fun c => c.key = r.key

def resultRow (createdAt seq : ℤ) (c : Completion) : ResultRow where
  seq := seq
  route := c.route
  key := c.key
  payload := c.payload
  expiresAt := c.expiresAt
  createdAt := createdAt

/-- The rows `Ack` inserts, with their attempts. -/
def ackResults (db : Database) (owner : String) (completions : List Completion)
    (createdAt : ℤ) : List (ℤ × ResultRow) :=
  (db.doneCompletions owner ((uniqueCompletions completions).map Prod.fst)).zipIdx.map fun ci =>
    (ci.1.attempt, resultRow createdAt (db.nextSeq + ci.2) ci.1)

/-- `Ack`: delete the completed rows and insert their results; the answer has one flag per
completion of the call. -/
def ack (db : Database) (owner : String) (completions : List Completion) (createdAt : ℤ) :
    List Bool × Database :=
  let unique := uniqueCompletions completions
  let input := unique.map Prod.fst
  let inserted := (db.ackResults owner completions createdAt).map Prod.snd
  ((List.range completions.length).map fun i =>
      unique.any fun u => u.2 = i && inserted.any fun r => r.key = u.1.key,
    { db with
      requests := db.requests.filter fun r => !input.any (db.completes owner · r)
      results := db.results ++ inserted
      nextSeq := db.nextSeq + inserted.length })

/-! ### Results -/

/-- The first statement of `PopResults`: drop the expired results of a route. -/
def expireRoute (db : Database) (route : String) (now : ℤ) : Database :=
  { db with
    results := db.results.filter fun r =>
      !(r.route = route && 0 < r.expiresAt && r.expiresAt < now) }

/-- `async_pop_results`: remove and return the first `limit` results of a route. -/
def popResults (db : Database) (route : String) (limit : ℕ) : List ResultRow × Database :=
  let popped := ((db.results.filter fun r => r.route = route).insertionSort
    fun a b => a.seq ≤ b.seq).take limit
  (popped, { db with results := db.results.filter fun r => r ∉ popped })

/-- `ExpireResults`: delete up to `limit` expired results of any route. -/
def expireResults (db : Database) (now : ℤ) (limit : ℕ) : ℕ × Database :=
  let gone := ((db.results.filter fun r => 0 < r.expiresAt && r.expiresAt < now).insertionSort
    fun a b => a.expiresAt ≤ b.expiresAt).take limit
  (gone.length, { db with results := db.results.filter fun r => r ∉ gone })

/-! ### Partitions and membership -/

/-- The rows `EnsurePartitions` inserts: the column defaults for every partition of the queue. -/
def freshPartitions (queue : String) : List PartitionRow :=
  (List.range partitionCount).map fun i =>
    { key := ⟨queue, i⟩, owner := "", epoch := 0, draining := false, leaseExpiresMs := 0 }

/-- `EnsurePartitions`: create the partitions of a queue that are missing. -/
def ensurePartitions (db : Database) (queue : String) : Database :=
  { db with partitions := db.partitions.insertMissing (freshPartitions queue) }

/-- `Heartbeat`, membership of a counted dispatcher: upsert its expiry. -/
def joinMembers (db : Database) (queue owner : String) (expires : ℤ) : Database :=
  { db with
    dispatchers := (db.dispatchers.filter fun d => d.key ≠ (queue, owner)).insertMissing
      [{ queue := queue, owner := owner, expiresMs := expires }] }

/-- `Heartbeat`, membership of a dispatcher that drains: remove it. -/
def leaveMembers (db : Database) (queue owner : String) : Database :=
  { db with dispatchers := db.dispatchers.filter fun d => d.key ≠ (queue, owner) }

/-- `Heartbeat`: forget the members whose expiry has passed. -/
def expireMembers (db : Database) (queue : String) (nowMs : ℤ) : Database :=
  { db with
    dispatchers := db.dispatchers.filter fun d => !(d.queue = queue && d.expiresMs < nowMs) }

/-- `Heartbeat`: the number of members of a queue. -/
def countMembers (db : Database) (queue : String) : ℕ :=
  db.dispatchers.rows.countP fun d => d.queue = queue

/-- The answer of `queryLeases`: the leases of the returned rows, by partition. -/
def leasesOf (ps : List PartitionRow) : List Lease :=
  (ps.map PartitionRow.toLease).insertionSort fun a b => a.partition ≤ b.partition

/-- `Heartbeat`: extend every lease of `owner` and return them. -/
def renewLeases (db : Database) (queue owner : String) (expires : ℤ) : List Lease × Database :=
  (leasesOf (db.partitions.rows.filter fun p => p.key.queue = queue && p.owner = owner),
    { db with
      partitions := db.partitions.map (fun p =>
        if p.key.queue = queue && p.owner = owner then { p with leaseExpiresMs := expires } else p)
        (fun p => by split <;> rfl) })

/-- The partition is unowned or its lease has lapsed. -/
def acquirable (queue : String) (nowMs : ℤ) (p : PartitionRow) : Bool :=
  p.key.queue = queue && (p.owner = "" || p.leaseExpiresMs < nowMs)

/-- `ORDER BY lease_expires_ms, partition_id`. -/
def acquireBefore (a b : PartitionRow) : Prop :=
  a.leaseExpiresMs < b.leaseExpiresMs ∨
    (a.leaseExpiresMs = b.leaseExpiresMs ∧ a.key.partition ≤ b.key.partition)

instance : DecidableRel acquireBefore := fun _ _ => inferInstanceAs (Decidable (_ ∨ _))

/-- The `picked` partitions of `AcquirePartitions`. -/
def pickedPartitions (db : Database) (sched : Sched) (queue : String) (nowMs : ℤ) (limit : ℕ) :
    List PartitionKey :=
  (((db.partitions.rows.filter fun p =>
    acquirable queue nowMs p && !sched.lockedPartition p.key).insertionSort acquireBefore).take
      limit).map PartitionRow.key

/-- What `AcquirePartitions` makes of a partition it takes. -/
def takeOver (owner : String) (expires : ℤ) (p : PartitionRow) : PartitionRow :=
  { p with owner := owner, epoch := p.epoch + 1, draining := false, leaseExpiresMs := expires }

/-- `AcquirePartitions`: take unowned or lapsed partitions and bump their epoch. -/
def acquirePartitions (db : Database) (sched : Sched) (queue owner : String) (now ttl : Time)
    (limit : ℕ) : List Lease × Database :=
  let picked := db.pickedPartitions sched queue now.unixMilli limit
  let taken := fun p : PartitionRow => acquirable queue now.unixMilli p && decide (p.key ∈ picked)
  let expires := Time.unixMilli (now + ttl)
  (leasesOf ((db.partitions.rows.filter taken).map (takeOver owner expires)),
    { db with
      partitions := db.partitions.map (fun p => if taken p then takeOver owner expires p else p)
        (fun p => by split <;> rfl) })

/-- `SetDraining`. -/
def setDraining (db : Database) (queue owner : String) (partitions : List ℤ) (draining : Bool) :
    Database :=
  { db with
    partitions := db.partitions.map (fun p =>
      if p.key.queue = queue && p.owner = owner && p.key.partition ∈ partitions then
        { p with draining := draining }
      else p) (fun p => by split <;> rfl) }

/-- What giving a partition up makes of its row. -/
def giveUp (p : PartitionRow) : PartitionRow :=
  { p with owner := "", draining := false, leaseExpiresMs := 0 }

/-- `ReleasePartitions`. -/
def releasePartitions (db : Database) (queue owner : String) (partitions : List ℤ) : Database :=
  { db with
    partitions := db.partitions.map (fun p =>
      if p.key.queue = queue && p.owner = owner && p.key.partition ∈ partitions then giveUp p
      else p) (fun p => by split <;> rfl) }

/-- `Leave`: give every partition of the queue up and resign from the membership. -/
def leave (db : Database) (queue owner : String) : Database :=
  { db with
    partitions := db.partitions.map (fun p =>
      if p.key.queue = queue && p.owner = owner then giveUp p else p) (fun p => by split <;> rfl)
    dispatchers := db.dispatchers.filter fun d => d.key ≠ (queue, owner) }

end Database

end LlmdAsync.SqlQueue
