import LlmdAsync.Foundation.Table

/-!
# The tables of the sql transport

The Postgres tables behind `producer-sql/sqlqueue` (`migrations/0001_initial_schema.sql`) and the
Go values that travel to and from them (`store.go`).

`async_requests` is keyed by `(id, request_token)`, `async_partitions` by `(queue, partition_id)`
and `async_dispatchers` by `(queue, owner)`; they are `Table`s.  `async_results` is only appended to
and drained, so it is a list.  The sequence `async_dispatch_attempts` is the field `nextAttempt`.
`BIGINT` columns are integers, the `SMALLINT` flags `cancelled` and `draining` are booleans, and
`time.Time` is a number of nanoseconds.
-/

namespace LlmdAsync.SqlQueue

/-! ### Go values -/

/-- `Partitions`, the number of partitions of every queue. -/
def partitionCount : ℕ := 64

/-- `enqueueChunk`, the number of requests one insert statement carries. -/
def enqueueChunk : ℕ := 1000

/-- A `time.Time`, in nanoseconds since the Unix epoch. -/
abbrev Time := ℤ

/-- `Time.Unix`, the whole seconds of a time. -/
def Time.unix (t : Time) : ℤ := t / 1000000000

/-- `Time.UnixMilli`, the whole milliseconds of a time. -/
def Time.unixMilli (t : Time) : ℤ := t / 1000000

/-- `Key`, the identity of one enqueued request. -/
structure Key where
  id : String
  token : String
deriving DecidableEq, Repr

/-- `Stamp` names one dispatch of a request. -/
structure Stamp where
  key : Key
  attempt : ℤ
deriving DecidableEq, Repr

/-- `Request`, a request as the producer submits it and as `Dispatch` returns it. -/
structure Request where
  key : Key
  queue : String
  partition : ℤ
  epoch : ℤ
  attempt : ℤ
  deadline : ℤ
  envelope : String
  payload : List UInt8
  cancelled : Bool
  createdAt : ℤ
deriving DecidableEq, Repr

/-- `Request.Stamp`. -/
def Request.stamp (r : Request) : Stamp := ⟨r.key, r.attempt⟩

/-- `Completion`, one finished request with the result to record. -/
structure Completion where
  key : Key
  attempt : ℤ
  route : String
  payload : String
  expiresAt : ℤ
deriving DecidableEq, Repr

/-- The stamp a completion names. -/
def Completion.stamp (c : Completion) : Stamp := ⟨c.key, c.attempt⟩

/-- `Lease`, one partition held by a dispatcher. -/
structure Lease where
  partition : ℤ
  epoch : ℤ
  draining : Bool
deriving DecidableEq, Repr

/-- The name of a dispatcher.  Dispatchers are named after their host and a random suffix, and the
empty string marks a partition nobody owns, so a name is never empty. -/
structure Owner where
  name : String
  name_ne : name ≠ ""
deriving DecidableEq, Repr

lemma first_ne : "dispatcher-0" ≠ "" := by decide

lemma second_ne : "dispatcher-1" ≠ "" := by decide

/-- The bytes of a Go string. -/
def utf8Bytes (s : String) : List UInt8 := s.toList.flatMap String.utf8EncodeChar

/-- `fnv.New32a`: the 32-bit FNV-1a hash. -/
def fnv32a (bytes : List UInt8) : UInt32 :=
  bytes.foldl (fun h b => (h ^^^ b.toUInt32) * 16777619) 2166136261

/-- `partitionOf`, the partition a request id hashes into. -/
def partitionOf (id : String) : ℤ := ((fnv32a (utf8Bytes id)).toNat % partitionCount : ℕ)

/-! ### Rows -/

/-- The primary key of `async_partitions`. -/
structure PartitionKey where
  queue : String
  partition : ℤ
deriving DecidableEq, Repr

/-- A row of `async_requests`. -/
structure RequestRow where
  key : Key
  queue : String
  partition : ℤ
  deadline : ℤ
  notBefore : ℤ
  dispatchEpoch : ℤ
  dispatchAttempt : ℤ
  cancelled : Bool
  envelope : String
  payload : List UInt8
  createdAt : ℤ
deriving DecidableEq, Repr

/-- The partition row a request belongs to. -/
def RequestRow.partitionKey (r : RequestRow) : PartitionKey := ⟨r.queue, r.partition⟩

/-- What `Dispatch` scans out of a returned row. -/
def RequestRow.toRequest (r : RequestRow) : Request where
  key := r.key
  queue := r.queue
  partition := r.partition
  epoch := r.dispatchEpoch
  attempt := r.dispatchAttempt
  deadline := r.deadline
  envelope := r.envelope
  payload := r.payload
  cancelled := r.cancelled
  createdAt := r.createdAt

/-- A row of `async_partitions`; `owner` is empty while nobody holds the partition. -/
structure PartitionRow where
  key : PartitionKey
  owner : String
  epoch : ℤ
  draining : Bool
  leaseExpiresMs : ℤ
deriving DecidableEq, Repr

/-- What `queryLeases` scans out of a returned row. -/
def PartitionRow.toLease (p : PartitionRow) : Lease := ⟨p.key.partition, p.epoch, p.draining⟩

/-- A row of `async_dispatchers`. -/
structure DispatcherRow where
  queue : String
  owner : String
  expiresMs : ℤ
deriving DecidableEq, Repr

/-- The primary key of `async_dispatchers`. -/
def DispatcherRow.key (d : DispatcherRow) : String × String := (d.queue, d.owner)

/-- A row of `async_results`. -/
structure ResultRow where
  seq : ℤ
  route : String
  key : Key
  payload : String
  expiresAt : ℤ
  createdAt : ℤ
deriving DecidableEq, Repr

structure Database where
  requests : Table RequestRow.key
  partitions : Table PartitionRow.key
  dispatchers : Table DispatcherRow.key
  results : List ResultRow
  /-- The value the next `nextval('async_dispatch_attempts')` returns. -/
  nextAttempt : ℤ
  /-- The value the next insert into `async_results` draws for `seq`. -/
  nextSeq : ℤ

def Database.initial : Database where
  requests := .empty
  partitions := .empty
  dispatchers := .empty
  results := []
  nextAttempt := 1
  nextSeq := 1

/-- The partition row of a request, if the queue's partitions have been created. -/
def Database.partitionOfRow (db : Database) (r : RequestRow) : Option PartitionRow :=
  db.partitions.get? r.partitionKey

/-- The request's partition is held by `owner`. -/
def Database.heldBy (db : Database) (owner : String) (r : RequestRow) : Bool :=
  (db.partitionOfRow r).any fun p => p.owner = owner

@[simp] lemma Database.heldBy_iff {db : Database} {owner : String} {r : RequestRow} :
    db.heldBy owner r = true ↔ ∃ p, db.partitionOfRow r = some p ∧ p.owner = owner := by
  simp [heldBy, Option.any_eq_true]

end LlmdAsync.SqlQueue
