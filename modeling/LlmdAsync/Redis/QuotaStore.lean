import LlmdAsync.Foundation.Double
import LlmdAsync.Foundation.Hash

/-!
# The quota store in Redis

`pkg/redis/quota_store.go`.  A key is a counter of `AcquireSlot` or a log of `Admit`, and a script
that finds the other kind fails.  The scripts are functions on the keys, given the clock of Redis in
milliseconds and that of the dispatcher in nanoseconds.

A log is a sorted set whose members are their own scores, and here a set of times.  The members are
texts and exact; the scores, and the bound they are compared with, are doubles.  All windows of a
key share one log, so `Admit` with a short window removes times that still count for a longer one.
-/

namespace LlmdAsync.Redis

inductive QuotaValue where
  /-- A counter.  No script makes it negative. -/
  | counter (n : ℕ)
  /-- The times of admissions. -/
  | log (times : Finset ℤ)
deriving DecidableEq

/-- A key and when Redis drops it. -/
structure QuotaKey where
  value : QuotaValue
  expireAt : ℤ
deriving DecidableEq

/-- `QuotaStore`, its keys and the clocks. -/
structure QuotaStore where
  /-- `slotTTL`, in nanoseconds. -/
  slotTTL : ℤ
  keys : Hash String QuotaKey
  redisMs : ℤ
  nowNs : ℤ

namespace QuotaStore

/-- The error of a command on a key of another type. -/
def wrongType : String := "WRONGTYPE Operation against a key holding the wrong kind of value"

/-- `Seconds` of a duration, as an integer. -/
def seconds (d : ℤ) : ℤ := d.tdiv 1000000000

/-- The time to live of a counter, in seconds. -/
def counterTTL (s : QuotaStore) : ℤ :=
  if seconds s.slotTTL ≤ 0 then 300 else seconds s.slotTTL

/-- The time to live of a log, in seconds. -/
def logTTL (window : ℤ) : ℤ := if seconds window * 2 ≤ 0 then 3600 else seconds window * 2

def found (s : QuotaStore) (key : String) : Option QuotaKey :=
  (Hash.hget s.keys key).filter fun k => decide (s.redisMs ≤ k.expireAt)

def put (s : QuotaStore) (key : String) (value : QuotaValue) (expireAt : ℤ) : QuotaStore :=
  { s with keys := Hash.hset s.keys key ⟨value, expireAt⟩ }

/-- Write a key and `EXPIRE` it. -/
def putFor (s : QuotaStore) (key : String) (value : QuotaValue) (ttl : ℤ) : QuotaStore :=
  s.put key value (s.redisMs + ttl * 1000)

/-- `AcquireSlot`: whether there was a slot. -/
def acquireSlot (s : QuotaStore) (key : String) (limit : ℤ) : Except String Bool × QuotaStore :=
  match s.found key with
  | none => (.ok true, s.putFor key (.counter 1) s.counterTTL)
  | some ⟨.counter n, _⟩ =>
    if limit ≤ n then (.ok false, s)
    else (.ok true, s.putFor key (.counter (n + 1)) s.counterTTL)
  | some ⟨.log _, _⟩ => (.error ("acquire concurrency quota: " ++ wrongType), s)

/-- `releaseSlot`: the count that remains, or `-1`. -/
def releaseSlot (s : QuotaStore) (key : String) : Except String ℤ × QuotaStore :=
  match s.found key with
  | none => (.ok (-1), s)
  | some ⟨.counter 0, _⟩ => (.ok (-1), s)
  | some ⟨.counter 1, expireAt⟩ => (.ok 0, s.put key (.counter 0) expireAt)
  | some ⟨.counter (n + 2), _⟩ => (.ok (n + 1), s.putFor key (.counter (n + 1)) s.counterTTL)
  | some ⟨.log _, _⟩ => (.error ("release concurrency quota: " ++ wrongType), s)

/-- What `ZREMRANGEBYSCORE` leaves of a log. -/
def recent (s : QuotaStore) (window : ℤ) (times : Finset ℤ) : Finset ℤ :=
  times.filter fun t =>
    ¬ (0 ≤ roundDouble t ∧ roundDouble t ≤ roundDouble (s.nowNs - window))

/-- A key whose log has become this one; an empty sorted set is no key. -/
def shrink (s : QuotaStore) (key : String) (times : Finset ℤ) (expireAt : ℤ) : QuotaStore :=
  if times = ∅ then { s with keys := Hash.hdel s.keys key } else s.put key (.log times) expireAt

/-- `Admit`. -/
def admitRate (s : QuotaStore) (key : String) (limit window : ℤ) :
    Except String Bool × QuotaStore :=
  match s.found key with
  | none =>
    if limit ≤ 0 then (.ok false, s)
    else (.ok true, s.putFor key (.log {s.nowNs}) (logTTL window))
  | some ⟨.log times, expireAt⟩ =>
    if limit ≤ (s.recent window times).card then
      (.ok false, s.shrink key (s.recent window times) expireAt)
    else
      (.ok true, s.putFor key (.log (insert s.nowNs (s.recent window times))) (logTTL window))
  | some ⟨.counter _, _⟩ => (.error ("admit rate quota: " ++ wrongType), s)

/-! ### What is found -/

variable {s : QuotaStore} {key : String}

lemma found_put (s : QuotaStore) (key : String) (value : QuotaValue) {expireAt : ℤ}
    (h : s.redisMs ≤ expireAt) (k : String) :
    (s.put key value expireAt).found k =
      if k = key then some ⟨value, expireAt⟩ else s.found k := by
  simp only [found, put, Hash.hget_hset]
  split
  · simp [Option.filter, h]
  · rfl

lemma found_putFor (s : QuotaStore) (key : String) (value : QuotaValue) {ttl : ℤ} (h : 0 ≤ ttl)
    (k : String) :
    (s.putFor key value ttl).found k =
      if k = key then some ⟨value, s.redisMs + ttl * 1000⟩ else s.found k :=
  found_put s key value (by omega) k

lemma counterTTL_nonneg (s : QuotaStore) : 0 ≤ s.counterTTL := by
  unfold counterTTL
  split <;> omega

lemma expireAt_of_found {k : QuotaKey} (h : s.found key = some k) : s.redisMs ≤ k.expireAt := by
  have hfilter := (Option.filter_eq_some_iff.mp h).2
  simpa using hfilter

end QuotaStore

end LlmdAsync.Redis
