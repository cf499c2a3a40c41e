import LlmdAsync.Foundation.Hash
import LlmdAsync.Redis.ClaimKey

/-!
# Durable result delivery: the scripts

`producer/redis_result_delivery.go`.  A `Route` is the state of one result route: the pending list
and the four keys private to the producer.  Each script is a function on it, given the server time
in milliseconds.  The list is written with its head first, so that `LPUSH` conses, `RPUSH` appends
and `RPOP` drops the last element.

Records are of any type, with a function that says which fields `cjson.decode` finds in them; it is
`none` for everything the script calls unparsable.
-/

namespace LlmdAsync.Redis

/-- `resultAckTombstoneTTL`, in milliseconds. -/
def resultAckTombstoneTTL : ℤ := 7 * 24 * 60 * 60 * 1000

/-- `resultReclaimBatchSize`. -/
def resultReclaimBatchSize : ℕ := 100

/-- `resultReceiveScanBatchSize`. -/
def resultReceiveScanBatchSize : ℕ := 100

/-- `resultTombstoneCleanupBatchSize`. -/
def resultTombstoneCleanupBatchSize : ℕ := 100

/-- The fields of a result record the scripts look at; `id` is a non-empty string, and
`requestToken` is empty when the record has no `request_token`. -/
structure ResultFields where
  id : String
  requestToken : String
deriving DecidableEq, Repr

/-- The claim ID of a result. -/
def ResultFields.claimID (f : ResultFields) : String := claimKey f.id f.requestToken

/-- The claim ID under which a receiver puts a record it cannot parse. -/
def unparsableID (owner : String) : String :=
  String.ofList (nul :: "unparsable-result".toList ++ nul :: owner.toList)

/-- The keys of one result route. -/
structure Route (R : Type) where
  pending : List R
  claimed : Hash String R
  owners : Hash String String
  idx : SortedSet String ℤ
  tombstones : SortedSet String ℤ
  /-- When Redis drops the key of the tombstones (`PEXPIRE`). -/
  tombstonesExpireAt : Option ℤ

/-- What `receiveResultScript` returns. -/
inductive Received (R : Type) where
  /-- `{}`: there is nothing to receive. -/
  | nothing
  /-- `{0}`: only duplicates were found; run the script again. -/
  | again
  /-- `{-1, payload, claimID}`. -/
  | unparsable (payload : R) (claimID : String)
  /-- `{1, payload, claimID}`. -/
  | result (payload : R) (claimID : String)
deriving DecidableEq

/-- What `ackResultDeliveryScript` returns. -/
inductive AckStatus where
  /-- `0`: ownership is lost. -/
  | lost
  /-- `1`: the claim is dropped. -/
  | acked
  /-- `2`: it had been acknowledged before. -/
  | repeated
deriving DecidableEq

namespace Route

variable {R : Type}

def initial : Route R := ⟨[], .empty, .empty, .empty, .empty, none⟩

/-- The keys Redis has expired are gone before a script runs. -/
def expireKeys (r : Route R) (now : ℤ) : Route R :=
  if r.tombstonesExpireAt.any fun e => decide (e < now) then
    { r with tombstones := .empty, tombstonesExpireAt := none }
  else r

/-- Put an expired claim back at the end of the list from which receivers pop. -/
def requeue (r : Route R) (claimID : String) : Route R :=
  { r with
    pending := r.pending ++ (Hash.hget r.claimed claimID).toList
    claimed := Hash.hdel r.claimed claimID
    owners := Hash.hdel r.owners claimID
    idx := Hash.hdel r.idx claimID }

/-- The first loop of `receiveResultScript`; it runs backwards. -/
def requeueExpired (r : Route R) (tie : String → ℕ) (now : ℤ) : Route R :=
  ((SortedSet.range r.idx tie (some now) resultReclaimBatchSize).reverse.map Prod.fst).foldl
    requeue r

def removeTombstone (r : Route R) (claimID : String) : Route R :=
  { r with tombstones := Hash.hdel r.tombstones claimID }

/-- Remove expired tombstones, a batch at a time. -/
def cleanTombstones (r : Route R) (tie : String → ℕ) (now : ℤ) : Route R :=
  ((SortedSet.range r.tombstones tie (some now) resultTombstoneCleanupBatchSize).map
    Prod.fst).foldl removeTombstone r

/-- The local function `claim` of `receiveResultScript`. -/
def claim (r : Route R) (payload : R) (claimID owner : String) (expiry : ℤ) : Route R :=
  { r with
    pending := r.pending.dropLast
    claimed := Hash.hset r.claimed claimID payload
    owners := Hash.hset r.owners claimID owner
    idx := Hash.hset r.idx claimID expiry }

/-- `RPOP` of a duplicate. -/
def pop (r : Route R) : Route R := { r with pending := r.pending.dropLast }

/-- `ZREM` of the tombstone of one claim ID if it has expired. -/
def expireTombstone (r : Route R) (claimID : String) (now : ℤ) : Route R :=
  if (Hash.hget r.tombstones claimID).any fun t => decide (t ≤ now) then r.removeTombstone claimID
  else r

variable (decode : R → Option ResultFields)

/-- The main loop of `receiveResultScript`. -/
def scan (now : ℤ) (owner : String) (lease : ℤ) : ℕ → Route R → Received R × Route R
  | 0, r => (.again, r)
  | n + 1, r =>
    match r.pending.getLast? with
    | none => (.nothing, r)
    | some payload =>
      match decode payload with
      | none => (.unparsable payload (unparsableID owner),
          r.claim payload (unparsableID owner) owner (now + lease))
      | some f =>
        let r := r.expireTombstone f.claimID now
        if (Hash.hget r.tombstones f.claimID).isSome then scan now owner lease n r.pop
        else if (Hash.hget r.owners f.claimID).isSome then scan now owner lease n r.pop
        else (.result payload f.claimID, r.claim payload f.claimID owner (now + lease))

/-- `receiveResultScript`. -/
def receive (r : Route R) (tie : String → ℕ) (now : ℤ) (owner : String) (lease : ℤ) :
    Received R × Route R :=
  let r := ((r.expireKeys now).requeueExpired tie now).cleanTombstones tie now
  let pending := min r.pending.length resultReceiveScanBatchSize
  if pending = 0 then (.nothing, r) else r.scan decode now owner lease pending

/-- The owner token holds the claim and its lease has not expired. -/
def holds (r : Route R) (now : ℤ) (claimID owner : String) : Bool :=
  (Hash.hget r.owners claimID).any (fun o => decide (o = owner)) && decide (owner ≠ "") &&
    (Hash.hget r.idx claimID).any fun e => decide (now < e)

/-- `renewResultScript`. -/
def renew (r : Route R) (now : ℤ) (claimID owner : String) (lease : ℤ) : Bool × Route R :=
  if r.holds now claimID owner then
    (true, { r with idx := Hash.hset r.idx claimID (now + lease) })
  else (false, r)

/-- Drop a claim and leave a tombstone. -/
def bury (r : Route R) (now : ℤ) (claimID : String) : Route R :=
  { r with
    claimed := Hash.hdel r.claimed claimID
    owners := Hash.hdel r.owners claimID
    idx := Hash.hdel r.idx claimID
    tombstones := Hash.hset r.tombstones claimID (now + resultAckTombstoneTTL)
    tombstonesExpireAt := some (now + resultAckTombstoneTTL) }

/-- `ackResultDeliveryScript`. -/
def ack (r : Route R) (tie : String → ℕ) (now : ℤ) (claimID owner : String) :
    AckStatus × Route R :=
  let r := (r.expireKeys now).cleanTombstones tie now
  if r.holds now claimID owner then (.acked, r.bury now claimID)
  else
    match Hash.hget r.tombstones claimID with
    | none => (.lost, r)
    | some t => if now < t then (.repeated, r) else (.lost, r.removeTombstone claimID)

end Route

end LlmdAsync.Redis
