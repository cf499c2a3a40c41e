import LlmdAsync.FlowControl.Gate
import LlmdAsync.SqlQueue.Schema

/-!
# Polls of the sql transport

`processQueue` and `dispatchPolled` of `pkg/sqlflow/flow.go`.  A poll takes rows from the queue,
starts a goroutine for every row that reaches the gate, and then goes through the rows in order: it
waits for the outcome of the gate, sends the request on the request channel, ends it with a result,
or gives it back.  What it gives back is collected and returned to the queue at the end.

The outcome of row `i` arrives on a channel of its own, which is named by `i`.  JSON is left to
`decode`.  Logging and metrics are left out.
-/

namespace LlmdAsync.SqlFlow

open SqlQueue (Stamp Time)
open FlowControl (GateAction GateRequest GateReturn Gate Hold LocalGate Verdict)

/-! ### Values -/

/-- `InternalRouting`, as far as the flow reads it. -/
structure InternalRouting where
  retryCount : ℕ
  queueID : String
  requestToken : String
  dispatchAttempt : ℤ
  requestQueueName : String
  resultQueueName : String
  resultTTLSeconds : ℤ
  resultRoutingResolved : Bool
  labels : Hash String String

/-- `InternalRequest`, as far as the flow reads it. -/
structure InternalRequest where
  id : String
  metadata : Hash String String
  routing : InternalRouting

/-- The stamp a request names. -/
def InternalRequest.stamp (ir : InternalRequest) : Stamp :=
  ⟨⟨ir.id, ir.routing.requestToken⟩, ir.routing.dispatchAttempt⟩

def InternalRequest.gateRequest (ir : InternalRequest) : GateRequest :=
  ⟨ir.id, ir.metadata, ir.routing.labels⟩

def InternalRequest.relabel (ir : InternalRequest) (req : GateRequest) : InternalRequest :=
  { ir with routing := { ir.routing with labels := req.labels } }

/-- `ResultMessage`. -/
structure ResultMessage where
  id : String
  payload : String
  errorCode : String
  errorMessage : String
  routing : InternalRouting

/-- `NewErrorResult`. -/
def newErrorResult (ir : InternalRequest) (errorCode errMsg : String) : ResultMessage where
  id := ir.id
  payload := "\x7b\"error\":\"" ++ errMsg ++ "\"\x7d"
  errorCode := errorCode
  errorMessage := errMsg
  routing := ir.routing

/-- `NewDeadlineExceededResult`. -/
def newDeadlineExceededResult (ir : InternalRequest) : ResultMessage :=
  newErrorResult ir "DEADLINE_EXCEEDED" "deadline exceeded"

/-- `NewCancelledResult`. -/
def newCancelledResult (ir : InternalRequest) : ResultMessage :=
  newErrorResult ir "CANCELLED" "cancelled"

/-- `NewGateDroppedResult`. -/
def newGateDroppedResult (ir : InternalRequest) : ResultMessage :=
  newErrorResult ir "GATE_DROPPED" "Pool gating dropped request"

/-- The result of a row that does not parse. -/
def newUnparsableResult (ir : InternalRequest) : ResultMessage :=
  newErrorResult ir "INVALID_REQUEST" "unparsable queued request"

/-- The result of a dropped request. -/
def droppedResult (ir : InternalRequest) (v : Verdict) : ResultMessage :=
  match v.result with
  | some r => ⟨r.id, r.payload, "", "", ir.routing⟩
  | none => newGateDroppedResult ir

/-- `QueueConfig`, as far as polls read it. -/
structure QueueConfig where
  id : String
  queueName : String
  resultQueueName : String
  resultTTLSeconds : ℤ
  labels : List (String × String)

/-- The fields of `Flow` that a poll reads, and what `encoding/json` and `AttachPayload` make of an
envelope and a payload.  The poll interval is in nanoseconds. -/
structure Flow where
  batchSize : ℕ
  pollInterval : ℤ
  decode : String → List UInt8 → Option InternalRequest

/-! ### Actions -/

inductive Action where
  /-- `gate.Budget`. -/
  | budget
  /-- `store.HasRequests`. -/
  | hasRequests
  /-- `consumer.Poll`; an error is `none`. -/
  | poll (now : Time) (limit : ℕ)
  /-- `time.Now`. -/
  | now
  /-- Start the goroutine that applies the gate to the request of a row. -/
  | spawn (i : ℕ) (ir : InternalRequest)
  /-- The goroutine sends the outcome. -/
  | deliver (i : ℕ) (out : GateReturn)
  /-- Receive the outcome. -/
  | receive (i : ℕ)
  | gate (a : GateAction)
  /-- Send on the result channel, or give up because the context has ended. -/
  | emit (result : ResultMessage)
  /-- Send on the request channel, or give up because the context has ended. -/
  | sendRequest (ir : InternalRequest)
  /-- `activeReleases.Swap`, which returns what was there. -/
  | swapReleases (stamp : Stamp) (releases : List Hold)
  /-- `activeReleases.LoadAndDelete`. -/
  | takeReleases (stamp : Stamp)
  /-- `consumer.Undispatch`. -/
  | undispatch (stamps : List Stamp)
  /-- `consumer.Defer`. -/
  | defer (stamps : List Stamp) (notBefore : ℤ)

@[reducible] def Action.Reply : Action → Type
  | .budget => ℚ
  | .hasRequests => Option Bool
  | .poll .. => Option (List SqlQueue.Request)
  | .now => Time
  | .receive _ => GateReturn
  | .gate a => a.Reply
  | .emit _ => Bool
  | .sendRequest _ => Bool
  | .swapReleases .. => List Hold
  | .takeReleases _ => List Hold
  | _ => Unit

abbrev Code (α : Type) := Prog Action Action.Reply α

def call (a : Action) : Code a.Reply := Prog.perform a

def ofGate {α : Type} (p : FlowControl.GateCode α) : Code α := p.embed Action.gate fun _ r => r

/-- `ReleaseGateReleases`. -/
def releaseGateReleases (releases : List Hold) : Code Unit :=
  ofGate (FlowControl.releaseAll releases.reverse)

/-- `trackGateReleases`. -/
def trackGateReleases (stamp : Stamp) (releases : List Hold) : Code Unit := do
  let prev : List Hold ← call (.swapReleases stamp releases)
  releaseGateReleases prev

/-- `releaseGateReleases` of a stamp. -/
def releaseTracked (stamp : Stamp) : Code Unit := do
  let prev : List Hold ← call (.takeReleases stamp)
  releaseGateReleases prev

/-! ### Rows -/

/-- `stampRouting`. -/
def stampRouting (cfg : QueueConfig) (ir : InternalRequest) : InternalRequest :=
  { ir with routing := { ir.routing with
      requestQueueName :=
        if ir.routing.requestQueueName = "" then cfg.queueName else ir.routing.requestQueueName
      queueID := if ir.routing.queueID = "" then cfg.id else ir.routing.queueID
      resultQueueName :=
        if !ir.routing.resultRoutingResolved && cfg.resultQueueName ≠ "" then cfg.resultQueueName
        else ir.routing.resultQueueName
      resultTTLSeconds :=
        if ir.routing.resultRoutingResolved then ir.routing.resultTTLSeconds
        else cfg.resultTTLSeconds
      resultRoutingResolved := true
      labels := cfg.labels.foldl (fun ls l => Hash.hset ls l.1 l.2) ir.routing.labels } }

/-- `parseRequest`. -/
def parseRequest (f : Flow) (row : SqlQueue.Request) : Option InternalRequest :=
  (f.decode row.envelope row.payload).map fun ir =>
    if ir.routing.requestToken = "" then
      { ir with routing := { ir.routing with requestToken := row.key.token } }
    else ir

/-- The request of a row that parses, as the first loop of `processQueue` makes it. -/
def rowRequest (f : Flow) (cfg : QueueConfig) (row : SqlQueue.Request) : Option InternalRequest :=
  (parseRequest f row).map fun ir =>
    stampRouting cfg { ir with routing := { ir.routing with dispatchAttempt := row.attempt } }

/-- The request that stands for a row that does not parse. -/
def unparsableRequest (cfg : QueueConfig) (row : SqlQueue.Request) : InternalRequest :=
  stampRouting cfg ⟨row.key.id, .empty,
    ⟨0, "", row.key.token, row.attempt, "", "", 0, false, .empty⟩⟩

/-- `polled`.  `gated` names the channel of the outcome, if the request reaches the gate. -/
structure Polled where
  row : SqlQueue.Request
  ir : Option InternalRequest
  expired : Bool
  gated : Option ℕ

/-- `pollReturns`. -/
structure PollReturns where
  now : List Stamp
  later : List Stamp
deriving DecidableEq

/-- Pending again at once. -/
def PollReturns.addNow (back : PollReturns) (stamp : Stamp) : PollReturns :=
  { back with now := back.now ++ [stamp] }

/-- Held back past the next poll. -/
def PollReturns.addLater (back : PollReturns) (stamp : Stamp) : PollReturns :=
  { back with later := back.later ++ [stamp] }

/-! ### The poll -/

section Poll

variable (f : Flow) (cfg : QueueConfig)

/-- The first loop of `processQueue`, from row `i` on. -/
def startGates (now : ℤ) : ℕ → List SqlQueue.Request → Code (List Polled)
  | _, [] => pure []
  | i, row :: rows => do
    let e ← match rowRequest f cfg row with
      | none => pure ⟨row, none, false, none⟩
      | some ir =>
        if row.deadline < now then pure ⟨row, some ir, true, none⟩
        else if row.cancelled then pure ⟨row, some ir, false, none⟩
        else do
          call (.spawn i ir)
          pure ⟨row, some ir, false, some i⟩
    let es ← startGates now (i + 1) rows
    pure (e :: es)

/-- The local function `emit` of `dispatchPolled`. -/
def emit (row : SqlQueue.Request) (result : ResultMessage) (back : PollReturns) :
    Code (Bool × PollReturns) := do
  let sent : Bool ← call (.emit result)
  pure (if sent then (true, back) else (false, back.addNow row.stamp))

/-- The end of `dispatchPolled`: send the request on the request channel. -/
def admitRow (row : SqlQueue.Request) (ir : InternalRequest) (releases : List Hold)
    (back : PollReturns) : Code (Bool × PollReturns) := do
  (if releases = [] then pure () else trackGateReleases ir.stamp releases : Code Unit)
  let sent : Bool ← call (.sendRequest ir)
  if sent then pure (true, back)
  else
    releaseTracked ir.stamp
    pure (false, back.addNow row.stamp)

/-- `dispatchPolled` from the outcome of the gate on. -/
def dispatchGated (row : SqlQueue.Request) (ir : InternalRequest) (out : GateReturn)
    (back : PollReturns) : Code (Bool × PollReturns) :=
  match out.verdict with
  | .error _ => do
    releaseGateReleases out.releases
    pure (true, back.addLater row.stamp)
  | .ok v =>
    match v.action with
    | .refuse => do
      releaseGateReleases out.releases
      pure (true, back.addLater row.stamp)
    | .drop => do
      releaseGateReleases out.releases
      emit row (droppedResult (ir.relabel out.req) v) back
    -- `ActionWait` is not looked at, so it is treated like `ActionContinue`.
    | _ => admitRow row (ir.relabel out.req) out.releases back

/-- `dispatchPolled`: whether the context has not ended first, and what is given back. -/
def dispatchPolled (e : Polled) (back : PollReturns) : Code (Bool × PollReturns) :=
  match e.ir with
  | none => emit e.row (newUnparsableResult (unparsableRequest cfg e.row)) back
  | some ir =>
    if e.expired then emit e.row (newDeadlineExceededResult ir) back
    else
      match e.gated with
      | none => emit e.row (newCancelledResult ir) back
      | some i => do
        let out : GateReturn ← call (.receive i)
        dispatchGated e.row ir out back

/-- The rows after one at which the context has ended: their gates are waited for and released. -/
def abandonRest : List Polled → PollReturns → Code PollReturns
  | [], back => pure back
  | e :: es, back => do
    (match e.gated with
      | none => pure ()
      | some i => do
        let out : GateReturn ← call (.receive i)
        releaseGateReleases out.releases : Code Unit)
    abandonRest es (back.addNow e.row.stamp)

/-- The second loop of `processQueue`. -/
def dispatchAll : List Polled → PollReturns → Code PollReturns
  | [], back => pure back
  | e :: es, back => do
    let (more, back) ← dispatchPolled cfg e back
    if more then dispatchAll es back else abandonRest es back

/-- The deferred function of `processQueue`. -/
def giveBack (back : PollReturns) : Code Unit := do
  (if back.now = [] then pure () else call (.undispatch back.now) : Code Unit)
  if back.later = [] then pure ()
  else
    let now : Time ← call .now
    call (.defer back.later ((now + f.pollInterval : Time).unix + 1))

/-- `processQueue`. -/
def processQueue : Code Unit := do
  let budget : ℚ ← call .budget
  let batchSize := ⌊(f.batchSize : ℚ) * budget⌋
  if batchSize ≤ 0 then
    let _ ← call .hasRequests
    pure ()
  else
    let now : Time ← call .now
    let rows : Option (List SqlQueue.Request) ← call (.poll now batchSize.toNat)
    match rows with
    | none => pure ()
    | some rows =>
      let now : Time ← call .now
      let entries ← startGates f cfg now.unix 0 rows
      let back ← dispatchAll cfg entries ⟨[], []⟩
      giveBack f back

end Poll

/-- The goroutine that `processQueue` starts for row `i`. -/
def gateRoutine (locals : ℕ → LocalGate) (gate : Gate) (i : ℕ) (ir : InternalRequest) :
    Code Unit := do
  let out ← ofGate (gate.apply locals ir.gateRequest [])
  call (.deliver i out)

end LlmdAsync.SqlFlow
