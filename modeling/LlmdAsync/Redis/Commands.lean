import LlmdAsync.Foundation.Hash
import LlmdAsync.Redis.Request

/-!
# Redis commands of the sorted-set transport

The keys of `pkg/redis/claim.go` and `pkg/redis/sortedset_impl.go`, and the commands and scripts
that dispatchers and producers run on them, each of them atomic.  A `Queue` is the pending set of
one request queue with the three keys of its claims; `Keyspace` adds the retry sets, the result
lists and the payload keys.  A `World` is a keyspace with its history.

`Queue.Effect` lists what a command can do to a queue; every invariant is checked against that list.
-/

namespace LlmdAsync.Redis

/-! ### Keys -/

/-- `claimKeys`: what Redis holds for one request queue. -/
structure Queue (M : Type) where
  pending : SortedSet M ℚ
  claimed : Hash String M
  owners : Hash String String
  idx : SortedSet String ℚ

/-- All keys the transport uses.  Retry sets, result lists and payloads are found by name. -/
structure Keyspace (M : Type) where
  queues : String → Queue M
  retries : String → SortedSet M ℚ
  results : String → List ResultRecord
  payloads : Hash String String

def Queue.empty {M : Type} : Queue M := ⟨.empty, .empty, .empty, .empty⟩

def Keyspace.initial {M : Type} : Keyspace M :=
  ⟨fun _ => .empty, fun _ => .empty, fun _ => [], .empty⟩

/-! ### Scripts -/

namespace Queue

variable {M : Type} [DecidableEq M]

/-- Delete the three entries of a claim. -/
def drop (q : Queue M) (key : String) : Queue M :=
  { q with
    claimed := Hash.hdel q.claimed key
    owners := Hash.hdel q.owners key
    idx := Hash.hdel q.idx key }

/-- `ZADD` to the pending set. -/
def enqueue (q : Queue M) (member : M) (score : ℚ) : Queue M :=
  { q with pending := Hash.hset q.pending member score }

/-- `ZREM` from the pending set. -/
def discard (q : Queue M) (member : M) : Queue M :=
  { q with pending := Hash.hdel q.pending member }

/-- `claimScript`. -/
def claim (q : Queue M) (key : String) (member : M) (token : String) (expiry : ℚ) :
    Bool × Queue M :=
  if (Hash.hget q.pending member).isSome then
    (true,
      { pending := Hash.hdel q.pending member
        claimed := Hash.hset q.claimed key member
        owners := Hash.hset q.owners key token
        idx := Hash.hset q.idx key expiry })
  else (false, q)

/-- `releaseClaimScript`. -/
def release (q : Queue M) (key : String) (member : M) (score : ℚ) (token : String) :
    Bool × Queue M :=
  if Hash.hget q.owners key = some token then (true, (q.enqueue member score).drop key)
  else (false, q)

/-- The guard of `ackResultScript` and what it does to the claim. -/
def ack (q : Queue M) (key token : String) : Bool × Queue M :=
  if Hash.hget q.owners key = some token ∧ token ≠ "" then (true, q.drop key) else (false, q)

/-- `dropClaimScript`. -/
def dropClaim (q : Queue M) (key token : String) : Bool × Queue M :=
  if Hash.hget q.owners key = some token then (true, q.drop key) else (false, q)

/-- `reclaimExpiredScript`. -/
def reclaimExpired (q : Queue M) (key : String) (score now : ℚ) : Bool × Queue M :=
  match Hash.hget q.idx key with
  | none => (false, q)
  | some exp =>
    if now < exp then (false, q)
    else
      match Hash.hget q.claimed key with
      | none => (false, { q with idx := Hash.hdel q.idx key })
      | some payload => (true, (q.enqueue payload score).drop key)

/-- `renewClaimScript`: 1 if the lease is extended, -1 if the claim is another owner's, 0 if there
is no claim. -/
def renewClaim (q : Queue M) (key : String) (expiry : ℚ) (token : String) : ℤ × Queue M :=
  if Hash.hget q.owners key = some token then (1, { q with idx := Hash.hset q.idx key expiry })
  else if (Hash.hget q.claimed key).isSome then (-1, q)
  else (0, q)

end Queue

/-! ### Commands -/

/-- A command or script with its arguments. -/
inductive Command (M : Type) where
  /-- The script of `SubmitRequest`, with the payload key if there is one. -/
  | submit (queue : String) (member : M) (score : ℚ) (payload : Option (String × String))
  | zcard (queue : String)
  | peek (queue : String) (count : ℕ)
  | zrem (queue : String) (member : M)
  | claim (queue key : String) (member : M) (token : String) (expiry : ℚ)
  | release (queue key : String) (member : M) (score : ℚ) (token : String)
  | ackResult (queue key list : String) (record : ResultRecord) (token : String) (listTTL : ℤ)
    (payload : Option String)
  | pushResult (list : String) (record : ResultRecord) (listTTL : ℤ)
  | dropClaim (queue key token : String)
  | expiredClaims (queue : String) (now : ℚ) (count : ℕ)
  | hgetClaimed (queue key : String)
  | reclaimExpired (queue key : String) (score now : ℚ)
  | renewClaim (queue key : String) (expiry : ℚ) (token : String)
  | zaddRetry (set : String) (member : M) (score : ℚ)
  | dueRetries (set : String) (now : ℚ) (count : ℕ)
  | zremRetry (set : String) (member : M)
  | zadd (queue : String) (member : M) (score : ℚ)
  | mget (refs : List String)
  | delPayload (ref : String)

@[reducible] def Command.Reply {M : Type} : Command M → Type
  | .zcard _ => ℕ
  | .peek .. => List (M × ℚ)
  | .claim .. => Bool
  | .release .. => Bool
  | .ackResult .. => Bool
  | .dropClaim .. => Bool
  | .expiredClaims .. => List String
  | .hgetClaimed .. => Option M
  | .reclaimExpired .. => Bool
  | .renewClaim .. => ℤ
  | .dueRetries .. => List M
  | .zremRetry .. => Bool
  | .mget _ => List (Option String)
  | _ => Unit

/-- The order of members with equal scores. -/
structure Ties (M : Type) where
  member : M → ℕ
  key : String → ℕ

/-- Equal scores are not reordered. -/
def Ties.plain {M : Type} : Ties M := ⟨fun _ => 0, fun _ => 0⟩

namespace Keyspace

section

variable {M : Type} {ks : Keyspace M}

def setQueue (ks : Keyspace M) (queue : String) (q : Queue M) : Keyspace M :=
  { ks with queues := Function.update ks.queues queue q }

def onQueue {α : Type} (ks : Keyspace M) (queue : String) (r : α × Queue M) : α × Keyspace M :=
  (r.1, ks.setQueue queue r.2)

/-- `LPUSH` of a result. -/
def push (ks : Keyspace M) (list : String) (record : ResultRecord) : Keyspace M :=
  { ks with results := Function.update ks.results list (record :: ks.results list) }

/-- `DEL` of a payload key. -/
def delPayload (ks : Keyspace M) (ref : String) : Keyspace M :=
  { ks with payloads := Hash.hdel ks.payloads ref }

/-- What `ackResultScript` does besides dropping the claim. -/
def recordResult (ks : Keyspace M) (list : String) (record : ResultRecord)
    (payload : Option String) : Keyspace M :=
  match payload with
  | none => ks.push list record
  | some ref => (ks.push list record).delPayload ref

@[simp] lemma queues_setQueue_self (name : String) (q : Queue M) :
    (ks.setQueue name q).queues name = q := Function.update_self ..

lemma queues_setQueue_of_ne {name name' : String} (q : Queue M) (h : name' ≠ name) :
    (ks.setQueue name q).queues name' = ks.queues name' := Function.update_of_ne h ..

lemma queues_recordResult (list : String) (record : ResultRecord) (payload : Option String) :
    (ks.recordResult list record payload).queues = ks.queues := by
  cases payload with
  | none | some ref => rfl

lemma results_recordResult (list : String) (record : ResultRecord) (payload : Option String) :
    (ks.recordResult list record payload).results = (ks.push list record).results := by
  cases payload with
  | none | some ref => rfl

end

variable {M : Type} [DecidableEq M]

def exec (ks : Keyspace M) (ties : Ties M) : (c : Command M) → c.Reply × Keyspace M
  | .submit queue member score payload =>
    ((), { ks.setQueue queue ((ks.queues queue).enqueue member score) with
      payloads := match payload with
        | none => ks.payloads
        | some (ref, text) => Hash.hset ks.payloads ref text })
  | .zcard queue => ((ks.queues queue).pending.rows.length, ks)
  | .peek queue count => (SortedSet.range (ks.queues queue).pending ties.member none count, ks)
  | .zrem queue member => ((), ks.setQueue queue ((ks.queues queue).discard member))
  | .claim queue key member token expiry =>
    ks.onQueue queue ((ks.queues queue).claim key member token expiry)
  | .release queue key member score token =>
    ks.onQueue queue ((ks.queues queue).release key member score token)
  | .ackResult queue key list record token _ payload =>
    let r := ks.onQueue queue ((ks.queues queue).ack key token)
    (r.1, if r.1 then r.2.recordResult list record payload else r.2)
  | .pushResult list record _ => ((), ks.push list record)
  | .dropClaim queue key token => ks.onQueue queue ((ks.queues queue).dropClaim key token)
  | .expiredClaims queue now count =>
    ((SortedSet.range (ks.queues queue).idx ties.key (some now) count).map Prod.fst, ks)
  | .hgetClaimed queue key => (Hash.hget (ks.queues queue).claimed key, ks)
  | .reclaimExpired queue key score now =>
    ks.onQueue queue ((ks.queues queue).reclaimExpired key score now)
  | .renewClaim queue key expiry token =>
    ks.onQueue queue ((ks.queues queue).renewClaim key expiry token)
  | .zaddRetry set member score =>
    ((), { ks with
      retries := Function.update ks.retries set (Hash.hset (ks.retries set) member score) })
  | .dueRetries set now count =>
    ((SortedSet.range (ks.retries set) ties.member (some now) count).map Prod.fst, ks)
  | .zremRetry set member =>
    ((Hash.hget (ks.retries set) member).isSome, { ks with
      retries := Function.update ks.retries set (Hash.hdel (ks.retries set) member) })
  | .zadd queue member score => ((), ks.setQueue queue ((ks.queues queue).enqueue member score))
  | .mget refs => (refs.map (Hash.hget ks.payloads), ks)
  | .delPayload ref => ((), ks.delPayload ref)

end Keyspace

/-! ### What a command does to a queue -/

/-- The effects of a command on the queue `name`. -/
inductive Queue.Effect {M : Type} [DecidableEq M] (name : String) (q : Queue M) :
    Command M → Queue M → Prop
  | same {c : Command M} : Effect name q c q
  | submit {m : M} {s : ℚ} {payload : Option (String × String)} :
    Effect name q (.submit name m s payload) (q.enqueue m s)
  | zadd {m : M} {s : ℚ} : Effect name q (.zadd name m s) (q.enqueue m s)
  | zrem {m : M} : Effect name q (.zrem name m) (q.discard m)
  | claim {k : String} {m : M} {token : String} {e : ℚ} (hm : (Hash.hget q.pending m).isSome) :
    Effect name q (.claim name k m token e)
      ⟨Hash.hdel q.pending m, Hash.hset q.claimed k m, Hash.hset q.owners k token,
        Hash.hset q.idx k e⟩
  | release {k : String} {m : M} {s : ℚ} {token : String}
    (howner : Hash.hget q.owners k = some token) :
    Effect name q (.release name k m s token) ((q.enqueue m s).drop k)
  | ack {k list : String} {record : ResultRecord} {token : String} {ttl : ℤ}
    {payload : Option String} (howner : Hash.hget q.owners k = some token) (hne : token ≠ "") :
    Effect name q (.ackResult name k list record token ttl payload) (q.drop k)
  | dropClaim {k token : String} (howner : Hash.hget q.owners k = some token) :
    Effect name q (.dropClaim name k token) (q.drop k)
  | reclaim {k : String} {m : M} {s now e : ℚ} (hidx : Hash.hget q.idx k = some e) (hle : e ≤ now)
    (hm : Hash.hget q.claimed k = some m) :
    Effect name q (.reclaimExpired name k s now) ((q.enqueue m s).drop k)
  | ghost {k : String} {s now : ℚ} (hm : Hash.hget q.claimed k = none) :
    Effect name q (.reclaimExpired name k s now) { q with idx := Hash.hdel q.idx k }
  | renew {k token : String} {e : ℚ} (howner : Hash.hget q.owners k = some token) :
    Effect name q (.renewClaim name k e token) { q with idx := Hash.hset q.idx k e }

namespace Keyspace

variable {M : Type} [DecidableEq M] {ks : Keyspace M}

lemma effect_onQueue {α : Type} {c : Command M} {queue name : String} {r : α × Queue M}
    (h : Queue.Effect queue (ks.queues queue) c r.2) :
    Queue.Effect name (ks.queues name) c ((ks.onQueue queue r).2.queues name) := by
  by_cases hq : name = queue
  · subst hq
    rw [onQueue, queues_setQueue_self]
    exact h
  · rw [onQueue, queues_setQueue_of_ne _ hq]
    exact .same

/-- Every command has one of the effects on every queue. -/
theorem exec_effect (ks : Keyspace M) (ties : Ties M) (c : Command M) (name : String) :
    Queue.Effect name (ks.queues name) c ((ks.exec ties c).2.queues name) := by
  cases c with
  | submit queue m s payload =>
    exact effect_onQueue (r := ((), (ks.queues queue).enqueue m s)) .submit
  | zrem queue m => exact effect_onQueue (r := ((), (ks.queues queue).discard m)) .zrem
  | zadd queue m s => exact effect_onQueue (r := ((), (ks.queues queue).enqueue m s)) .zadd
  | claim queue k m token e =>
    refine effect_onQueue ?_
    unfold Queue.claim
    split
    next hm =>
      exact .claim hm
    · exact .same
  | release queue k m s token =>
    refine effect_onQueue ?_
    unfold Queue.release
    split
    next howner =>
      exact .release howner
    · exact .same
  | dropClaim queue k token =>
    refine effect_onQueue ?_
    unfold Queue.dropClaim
    split
    next howner =>
      exact .dropClaim howner
    · exact .same
  | reclaimExpired queue k s now =>
    refine effect_onQueue ?_
    unfold Queue.reclaimExpired
    split
    · exact .same
    next e hidx =>
      split
      · exact .same
      next hle =>
        split
        next hm =>
          exact .ghost hm
        next m hm =>
          exact .reclaim hidx (not_lt.mp hle) hm
  | renewClaim queue k e token =>
    refine effect_onQueue ?_
    unfold Queue.renewClaim
    split
    next howner =>
      exact .renew howner
    · split <;> exact .same
  | ackResult queue k list record token ttl payload =>
    simp only [exec]
    rw [apply_ite (fun ks : Keyspace M => ks.queues name), queues_recordResult, ite_self]
    refine effect_onQueue ?_
    unfold Queue.ack
    split
    next h =>
      exact .ack h.1 h.2
    · exact .same
  | _ => exact .same

end Keyspace

/-! ### Histories -/

inductive Event (M : Type) where
  /-- A producer put a request into a queue. -/
  | submitted (queue : String) (member : M)
  /-- A claim took effect. -/
  | claimed (queue key token : String)
  /-- A release, acknowledgement, renewal or drop was run with the token, in vain or not. -/
  | used (token : String)
  /-- `ackResultScript` dropped the claim of the token and recorded a result. -/
  | acked (queue key token : String)
  /-- A record was pushed to a result list, which then lives for so many seconds. -/
  | pushed (list : String) (record : ResultRecord) (listTTL : ℤ)
deriving DecidableEq

/-- The keys and all that happened to them, oldest first. -/
structure World (M : Type) where
  keys : Keyspace M
  log : List (Event M)

def World.initial {M : Type} : World M := ⟨.initial, []⟩

variable {M : Type} [DecidableEq M]

def Keyspace.events (ks : Keyspace M) : Command M → List (Event M)
  | .submit queue member _ _ => [.submitted queue member]
  | .claim queue key member token _ =>
    if (Hash.hget (ks.queues queue).pending member).isSome then [.claimed queue key token] else []
  | .release _ _ _ _ token => [.used token]
  | .dropClaim _ _ token => [.used token]
  | .renewClaim _ _ _ token => [.used token]
  | .ackResult queue key list record token listTTL _ =>
    .used token :: if ((ks.queues queue).ack key token).1 then
      [.acked queue key token, .pushed list record listTTL] else []
  | .pushResult list record listTTL => [.pushed list record listTTL]
  | _ => []

def World.exec (w : World M) (ties : Ties M) (c : Command M) : c.Reply × World M :=
  let r := w.keys.exec ties c
  (r.1, ⟨r.2, w.log ++ w.keys.events c⟩)

end LlmdAsync.Redis
