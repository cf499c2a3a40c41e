import LlmdAsync.Foundation.Threads
import LlmdAsync.Redis.Commands
import LlmdAsync.Redis.KeySlot

/-!
# The code of a dispatcher

`RedisSortedSetFlow` of `pkg/redis/claim.go` and `pkg/redis/sortedset_impl.go` as programs: polls,
claims, their release and renewal, and acknowledgements in a cluster.  Their actions are Redis
commands, accesses to the map `claimTokens`, messages on channels, and questions to the outside: the
clock, the gate, the cancellation checker.  A Redis command is answered by `none` if the client sees
an error.

Requests in channels carry the token of the claim under which they were taken, and accesses to
`claimTokens` the token on whose behalf they are made.  The code never looks at these; they are
there to be reasoned about.  Logging, metrics and the removal of cancellation markers are left out.
-/

namespace LlmdAsync.Redis

/-! ### Values -/

/-- `claimHandle`. -/
structure ClaimHandle where
  token : String
  queue : String
  deadline : ℤ
  requestID : String
  requestToken : String
deriving DecidableEq, Repr

/-- A request in a channel, with the token of its claim. -/
structure Delivery where
  ir : InternalRequest
  token : String
deriving DecidableEq, Repr

/-- A result in a channel, with the token of the claim of its request. -/
structure Completed where
  result : ResultMessage
  token : String
deriving DecidableEq, Repr

/-- `SortedSetQueueConfig`, as far as polls and flushes read it. -/
structure QueueConfig where
  queueName : String
  resultQueueName : String
  resultTTLSeconds : ℤ
  labels : List (String × String)
deriving DecidableEq, Repr

/-- The fields of `RedisSortedSetFlow` that never change.  The lease TTL is in seconds. -/
structure FlowConfig where
  clusterKeys : Bool
  claimLeaseTTL : ℚ
  batchSize : ℕ
  retryQueueName : String
  defaultResultQueueName : String

/-- `Verdict`. -/
inductive Verdict where
  /-- `ActionContinue`. -/
  | proceed
  | drop (result : Option ResultMessage)
  | refuse
  | wait
deriving DecidableEq, Repr

/-- What `gate.Apply` returns for a request: the verdict, unless there is an error, the closures it
appended to `releases`, and the labels of the request afterwards.  The one gate that drops requests
with a result of its own puts the id of the request into it. -/
structure GateAnswer (ir : InternalRequest) where
  verdict : Option Verdict
  releases : List ℕ
  labels : List (String × String)
  own_id : ∀ r, verdict = some (.drop (some r)) → r.id = ir.id

/-- What code asks the outside world. -/
inductive Question where
  /-- `time.Now().Unix()`. -/
  | now
  /-- `gate.Budget`. -/
  | budget
  | gate (ir : InternalRequest)
  | isCancelled (id token : String)
  /-- How often the Redis client sends a command again after an error. -/
  | resends

/-- What it is told. -/
@[reducible] def Question.Answer : Question → Type
  | .now => ℤ
  | .budget => ℚ
  | .gate ir => GateAnswer ir
  | .isCancelled .. => Option Bool
  | .resends => ℕ

/-! ### Actions -/

inductive Action (M : Type) where
  | redis (c : Command M)
  | ask (q : Question)
  /-- `newClaimToken`, for a claim of the key. -/
  | newClaimToken (key : String)
  | storeHandle (h : ClaimHandle)
  /-- `claimTokens.Delete` of the key, on behalf of the token. -/
  | deleteHandle (key token : String)
  /-- Send on the request channel, or give up because the context has ended. -/
  | sendRequest (d : Delivery)
  /-- Send on the result channel, or give up because the context has ended. -/
  | sendResult (c : Completed)
  /-- `ReleaseGateReleases`. -/
  | releaseGates (releases : List ℕ)
  /-- `activeReleases.Swap`, and release of what was there. -/
  | swapReleases (id : String) (releases : List ℕ)
  /-- `activeReleases.Delete`. -/
  | deleteReleases (id : String)

@[reducible] def Action.Reply {M : Type} : Action M → Type
  | .redis c => Option c.Reply
  | .ask q => q.Answer
  | .newClaimToken _ => Option String
  | .sendRequest _ => Bool
  | .sendResult _ => Bool
  | _ => Unit

/-- Code that returns an `α`. -/
abbrev Code (M α : Type) := Prog (Action M) Action.Reply α

variable {M : Type}

def ask (q : Question) : Code M q.Answer := Prog.perform (Action.ask q)

/-- Send a command, and send it again after an error, up to `n` times. -/
def resend (c : Command M) : ℕ → Code M (Option c.Reply)
  | 0 => Prog.perform (Action.redis c)
  | n + 1 => do
    match ← (Prog.perform (Action.redis c) : Code M (Option c.Reply)) with
    | some r => pure (some r)
    | none => resend c n

/-- Run a command through the Redis client. -/
def redis (c : Command M) : Code M (Option c.Reply) := do
  let n ← ask .resends
  resend c n

/-- `claimTokens.Delete`. -/
def deleteHandle (key token : String) : Code M Unit := Prog.perform (Action.deleteHandle key token)

/-- `ReleaseGateReleases`. -/
def releaseGates (releases : List ℕ) : Code M Unit := Prog.perform (Action.releaseGates releases)

/-- `maxRetries`. -/
def maxRetries : ℕ := 3

/-- `retryRedisOp` with `n` attempts left; an error is `none`. -/
def retryRedisOp {α : Type} (fn : Code M (Option α)) : ℕ → Code M (Option α)
  | 0 => pure none
  | n + 1 => do
    match ← fn with
    | some a => pure (some a)
    | none => retryRedisOp fn n

/-! ### Claims -/

/-- `reclaimGraceAfterDeadline`, in seconds. -/
def reclaimGraceAfterDeadline : ℚ := 300

/-- `claimExpiry` at a given time. -/
def claimExpiryAt (cfg : FlowConfig) (now deadline : ℤ) : ℚ :=
  if 0 < deadline ∧ deadline + reclaimGraceAfterDeadline < now + cfg.claimLeaseTTL then
    deadline + reclaimGraceAfterDeadline
  else now + cfg.claimLeaseTTL

/-- `claimExpiry`. -/
def claimExpiry (cfg : FlowConfig) (deadline : ℤ) : Code M ℚ := do
  let now : ℤ ← ask .now
  pure (claimExpiryAt cfg now deadline)

section Claims

variable (cfg : FlowConfig)

/-- `claimRequest`: an error, no claim, or the token of the claim. -/
def claimRequest (queue : String) (ir : InternalRequest) (member : M) (deadline : ℤ) :
    Code M (Option (Option String)) := do
  match ← (Prog.perform (Action.newClaimToken ir.claimKey) : Code M (Option String)) with
  | none => pure none
  | some token =>
    let expiry ← claimExpiry cfg deadline
    match ← redis (.claim queue ir.claimKey member token expiry) with
    | none => pure none
    | some false => pure (some none)
    | some true =>
      Prog.perform (Action.storeHandle
        ⟨token, queue, deadline, ir.id, ir.routing.requestToken⟩)
      pure (some (some token))

/-- `releaseClaim`. -/
def releaseClaim (queue requestID requestToken : String) (member : M) (score : ℚ)
    (token : String) : Code M (Option Unit) := do
  match ← redis (.release queue (claimKey requestID requestToken) member score token) with
  | none => pure none
  | some _ =>
    deleteHandle (claimKey requestID requestToken) token
    pure (some ())

/-- The three commands of `ackResultCluster` for a result list in another slot. -/
def ackResultCrossSlot (queue resultList key : String) (deadline : ℤ) (token : String)
    (record : ResultRecord) (listTTL : ℤ) : Code M (Option Bool) := do
  let expiry ← claimExpiry cfg deadline
  match ← redis (.renewClaim queue key expiry token) with
  | none => pure none
  | some (res : ℤ) =>
    if res ≠ 1 then
      deleteHandle key token
      pure (some false)
    else
      match ← redis (.pushResult resultList record listTTL) with
      | none => pure none
      | some _ =>
        deleteHandle key token
        let _ ← redis (.dropClaim queue key token)
        pure (some true)

/-- `ackResultScript`, and the deletion of the handle when it did not fail. -/
def ackResultSameSlot (queue resultList key : String) (token : String) (record : ResultRecord)
    (listTTL : ℤ) (payload : Option String) : Code M (Option Bool) := do
  match ← redis (.ackResult queue key resultList record token listTTL payload) with
  | none => pure none
  | some pushed =>
    deleteHandle key token
    pure (some pushed)

/-- The key of the owners hash of a queue, as `newClaimKeys` names it. -/
def ownersKey (queue : String) (cluster : Bool) : String := slotKey queue cluster ++ ":claim-owners"

/-- `ackResultCluster`. -/
def ackResultCluster (queue resultList key : String) (deadline : ℤ) (token : String)
    (record : ResultRecord) (listTTL : ℤ) : Code M (Option Bool) :=
  if sameHashSlot (ownersKey queue true) resultList then
    ackResultSameSlot queue resultList key token record listTTL none
  else ackResultCrossSlot cfg queue resultList key deadline token record listTTL

/-- `renewClaim`. -/
def renewClaim (queue requestID requestToken : String) (deadline : ℤ) (token : String) :
    Code M (Option ℤ) := do
  let expiry ← claimExpiry cfg deadline
  redis (.renewClaim queue (claimKey requestID requestToken) expiry token)

/-- Run code for every element of a list. -/
def forEach {α : Type} (f : α → Code M Unit) : List α → Code M Unit
  | [] => pure ()
  | a :: l => do
    f a
    forEach f l

end Claims

/-! ### Polls -/

def setLabel (labels : List (String × String)) (l : String × String) : List (String × String) :=
  labels.filter (fun l' => decide (l'.1 ≠ l.1)) ++ [l]

/-- The routing after `processMessagesWithConfig` has stamped it. -/
def stampRouting (queueName queueID : String) (qc : QueueConfig) (r : InternalRouting) :
    InternalRouting :=
  { r with
    requestQueueName := if r.requestQueueName = "" then queueName else r.requestQueueName
    queueID := if r.queueID = "" then queueID else r.queueID
    resultQueueName :=
      if !r.resultRoutingResolved && qc.resultQueueName ≠ "" then qc.resultQueueName
      else r.resultQueueName
    resultTTLSeconds := if r.resultRoutingResolved then r.resultTTLSeconds else qc.resultTTLSeconds
    resultRoutingResolved := true
    labels := qc.labels.foldl setLabel r.labels }

/-- The request after `processMessagesWithConfig` has stamped it. -/
def stamp (queueName queueID : String) (qc : QueueConfig) (ir : InternalRequest) :
    InternalRequest :=
  { ir with routing := stampRouting queueName queueID qc ir.routing }

/-- `claimedRequest`. -/
structure ClaimedRequest (M : Type) where
  ir : InternalRequest
  member : M
  token : String
  releases : List ℕ

/-- What becomes of the loop of `processMessagesWithConfig` after one member. -/
inductive Polled (M : Type) where
  | next
  /-- The context has ended. -/
  | stop
  /-- The request is claimed and waits for its payload. -/
  | ready (c : ClaimedRequest M)

/-- `dispatch`. -/
def dispatch (d : Delivery) (releases : List ℕ) : Code M Bool := do
  (if releases = [] then pure () else Prog.perform (Action.swapReleases d.ir.id releases) :
    Code M Unit)
  match ← (Prog.perform (Action.sendRequest d) : Code M Bool) with
  | true => pure true
  | false =>
    Prog.perform (Action.deleteReleases d.ir.id)
    pure false

/-- `releaseOnShutdown`, and one round of `releaseClaimed`. -/
def releaseRequest (queue : String) (ir : InternalRequest) (member : M) (token : String) :
    Code M Unit := do
  let _ ← retryRedisOp (releaseClaim queue ir.id ir.routing.requestToken member ir.queueScore token)
    maxRetries
  pure ()

/-- `releaseClaimed`. -/
def releaseClaimed (queue : String) (cs : List (ClaimedRequest M)) : Code M Unit :=
  forEach (fun c => do
    releaseRequest queue c.ir c.member c.token
    releaseGates c.releases) cs

section Polls

variable (codec : Codec M) (cfg : FlowConfig)

/-- The branches of `processMessagesWithConfig` that end a request: claim it and send a result. -/
def terminate (queue : String) (ir : InternalRequest) (member : M) (result : ResultMessage) :
    Code M (Polled M) := do
  match ← claimRequest cfg queue ir member ir.deadline with
  | none => pure .next
  | some none => pure .next
  | some (some token) =>
    match ← (Prog.perform (Action.sendResult ⟨result, token⟩) : Code M Bool) with
    | true => pure .next
    | false =>
      releaseRequest queue ir member token
      pure .stop

/-- The branch of `processMessagesWithConfig` for an admitted request. -/
def admitRequest (queue : String) (ir : InternalRequest) (member : M) (releases : List ℕ) :
    Code M (Polled M) := do
  match ← claimRequest cfg queue ir member ir.deadline with
  | none =>
    releaseGates releases
    pure .next
  | some none =>
    releaseGates releases
    pure .next
  | some (some token) =>
    if ir.routing.payloadRef ≠ "" then pure (.ready ⟨ir, member, token, releases⟩)
    else
      match ← dispatch ⟨ir, token⟩ releases with
      | true => pure .next
      | false =>
        releaseRequest queue ir member token
        releaseGates releases
        pure .stop

/-- The result of a dropped request. -/
def droppedResult (ir : InternalRequest) : Option ResultMessage → ResultMessage
  | some r => { r with routing := ir.routing }
  | none => newGateDroppedResult ir

/-- `processMessagesWithConfig` from the gate on. -/
def applyGate (queue : String) (ir : InternalRequest) (member : M) : Code M (Polled M) := do
  let a ← ask (.gate ir)
  match GateAnswer.verdict a with
  | none =>
    releaseGates (GateAnswer.releases a)
    pure .next
  | some .refuse =>
    releaseGates (GateAnswer.releases a)
    pure .next
  | some (.drop result) =>
    terminate cfg queue { ir with routing := { ir.routing with labels := GateAnswer.labels a } }
      member
      (droppedResult { ir with routing := { ir.routing with labels := GateAnswer.labels a } }
        result)
  -- `ActionWait` is not looked at, so it is treated like `ActionContinue`.
  | some _ =>
    admitRequest cfg queue { ir with routing := { ir.routing with labels := GateAnswer.labels a } }
      member (GateAnswer.releases a)

/-- One round of the loop of `processMessagesWithConfig`. -/
def pollMember (queue queueID : String) (qc : QueueConfig) (now : ℤ) (member : M) :
    Code M (Polled M) :=
  match codec.parseMessage member with
  | none => do
    let _ ← redis (.zrem queue member)
    pure .next
  | some raw =>
    let ir := stamp queue queueID qc raw
    if ir.deadline < now then terminate cfg queue ir member (newDeadlineExceededResult ir)
    else do
      let cancelled : Option Bool ← ask (.isCancelled ir.id ir.routing.requestToken)
      if cancelled = some true then terminate cfg queue ir member (newCancelledResult ir)
      else applyGate cfg queue ir member

/-- The loop of `processMessagesWithConfig`: whether it went through, and the requests that wait for
their payloads. -/
def pollMembers (queue queueID : String) (qc : QueueConfig) (now : ℤ) :
    List M → List (ClaimedRequest M) → Code M (Bool × List (ClaimedRequest M))
  | [], ready => pure (true, ready)
  | member :: ms, ready => do
    match ← pollMember codec cfg queue queueID qc now member with
    | .next => pollMembers queue queueID qc now ms ready
    | .stop => pure (false, ready)
    | .ready c => pollMembers queue queueID qc now ms (ready ++ [c])

/-- `readPayloads` in cluster mode, where the keys span slots: one `GET` each. -/
def getPayloads : List String → Code M (Option (List (Option String)))
  | [] => pure (some [])
  | ref :: refs => do
    match ← redis (.mget [ref]) with
    | none => pure none
    | some (vs : List (Option String)) =>
      match ← getPayloads refs with
      | none => pure none
      | some rest => pure (some (vs ++ rest))

/-- `readPayloads`. -/
def readPayloads (refs : List String) : Code M (Option (List (Option String))) :=
  if cfg.clusterKeys then getPayloads refs else redis (.mget refs)

/-- The last loop of `processMessagesWithConfig`.  It returns the requests that are still to be
released. -/
def dispatchReady : List (ClaimedRequest M × Option String) → Code M (List (ClaimedRequest M))
  | [] => pure []
  | (c, none) :: rest => do
    match ← (Prog.perform (Action.sendResult ⟨newPayloadUnavailableResult c.ir, c.token⟩) :
      Code M Bool) with
    | true =>
      releaseGates c.releases
      dispatchReady rest
    | false => pure (c :: rest.map Prod.fst)
  | (c, some payload) :: rest => do
    match ← dispatch ⟨{ c.ir with payload := some payload }, c.token⟩ c.releases with
    | true => dispatchReady rest
    | false => pure (c :: rest.map Prod.fst)

/-- `processMessagesWithConfig` after its first loop. -/
def loadAndDispatch (ready : List (ClaimedRequest M)) : Code M (List (ClaimedRequest M)) :=
  if ready = [] then pure []
  else do
    match ← readPayloads cfg (ready.map fun c => c.ir.routing.payloadRef) with
    | none => pure ready
    | some values => dispatchReady (ready.zip values)

/-- `processMessagesWithConfig`. -/
def processMessagesWithConfig (queue queueID : String) (qc : QueueConfig) : Code M Unit := do
  let now : ℤ ← ask .now
  let budget : ℚ ← ask .budget
  let batchSize := ⌊(cfg.batchSize : ℚ) * budget⌋
  if batchSize ≤ 0 then
    let _ ← redis (.zcard queue)
    pure ()
  else
    match ← redis (.peek queue batchSize.toNat) with
    | none => pure ()
    | some (zs : List (M × ℚ)) =>
      match ← pollMembers codec cfg queue queueID qc now (zs.map Prod.fst) [] with
      | (false, ready) => releaseClaimed queue ready
      | (true, ready) =>
        let rest ← loadAndDispatch cfg ready
        releaseClaimed queue rest

end Polls

end LlmdAsync.Redis
