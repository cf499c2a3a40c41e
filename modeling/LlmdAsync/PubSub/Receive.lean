import LlmdAsync.FlowControl.Gate

/-!
# The receive callback of the Pub/Sub transport

The function that `processMessages` of `pkg/pubsub/pubsubimpl.go` passes to `Receive`.  It runs once
for every delivery of a message: it applies the gate, hands the request on or ends it with a result,
waits until the result worker or the retry worker says whether a result was published, and then
acknowledges the message or not.

JSON is left to `decode`.  Logging, metrics and the passive health signal are left out.
-/

namespace LlmdAsync.PubSub

open FlowControl (GateRequest GateReturn Hold Verdict)

/-! ### Values -/

structure Message where
  id : String
  data : String
  attributes : List (String × String)
  /-- `DeliveryAttempt`, if the broker says. -/
  deliveryAttempt : Option ℕ

/-- `PubSubRequest`, as far as the callback reads it. -/
structure Wire where
  id : String
  metadata : Hash String String
  resultQueueName : String

/-- `InternalRouting`, as far as this transport sets it. -/
structure InternalRouting where
  transportCorrelationID : String
  requestQueueName : String
  resultQueueName : String
  retryCount : ℤ
  labels : Hash String String

/-- `InternalRequest`. -/
structure InternalRequest where
  id : String
  metadata : Hash String String
  routing : InternalRouting

def InternalRequest.gateRequest (ir : InternalRequest) : GateRequest :=
  ⟨ir.id, ir.metadata, ir.routing.labels⟩

def InternalRequest.relabel (ir : InternalRequest) (req : GateRequest) : InternalRequest :=
  { ir with routing := { ir.routing with labels := req.labels } }

/-- `ResultMessage`. -/
structure ResultMessage where
  id : String
  payload : String
  errorCode : String
  errorMessage : String
  routing : InternalRouting

/-- `NewGateDroppedResult`. -/
def newGateDroppedResult (ir : InternalRequest) : ResultMessage :=
  ⟨ir.id, "\x7b\"error\":\"Pool gating dropped request\"\x7d", "GATE_DROPPED",
    "Pool gating dropped request", ir.routing⟩

/-- The result of a dropped request. -/
def droppedResult (ir : InternalRequest) (v : Verdict) : ResultMessage :=
  match v.result with
  | some r => ⟨r.id, r.payload, "", "", ir.routing⟩
  | none => newGateDroppedResult ir

/-- The parameters of `processMessages`, and what `encoding/json` makes of the data. -/
structure Subscription where
  subscriberID : String
  resultTopicID : String
  labels : List (String × String)
  decode : String → Option Wire

/-! ### Actions -/

inductive Action where
  /-- `gate.Apply`. -/
  | apply (req : GateRequest)
  /-- `ReleaseGateReleases`. -/
  | releaseGates (releases : List Hold)
  /-- `resultChannels.Store` of a new channel. -/
  | storeChannel (msgID : String)
  /-- `resultChannels.Delete`. -/
  | deleteChannel (msgID : String)
  /-- Receive from the channel whether a result was published. -/
  | receive (msgID : String)
  /-- Send on the request channel. -/
  | sendRequest (ir : InternalRequest)
  /-- Send on the result channel. -/
  | sendResult (result : ResultMessage)
  | ack (msgID : String)
  | nack (msgID : String)
  /-- Start the goroutine that calls `Nack` after `quotaExceededNackDelay`, or when the context
  ends. -/
  | nackLater (msgID : String)

@[reducible] def Action.Reply : Action → Type
  | .apply _ => GateReturn
  | .receive _ => Bool
  | _ => Unit

abbrev Code (α : Type) := Prog Action Action.Reply α

def call (a : Action) : Code a.Reply := Prog.perform a

/-! ### The callback -/

/-- The request that a message carries. -/
def request (sub : Subscription) (msg : Message) (wire : Wire) : InternalRequest where
  id := wire.id
  metadata := msg.attributes.foldl (fun md a => Hash.hset md a.1 a.2) wire.metadata
  routing :=
    { transportCorrelationID := msg.id
      requestQueueName := sub.subscriberID
      resultQueueName := if sub.resultTopicID = "" then wire.resultQueueName else sub.resultTopicID
      retryCount := match msg.deliveryAttempt with
        | none => 0
        | some n => n - 1
      labels := sub.labels.foldl (fun ls l => Hash.hset ls l.1 l.2) .empty }

/-- Wait for the result, and acknowledge the message if it was published. -/
def awaitResult (msg : Message) : Code Unit := do
  let result : Bool ← call (.receive msg.id)
  if result then call (.ack msg.id) else call (.nack msg.id)

/-- The callback from the return of the gate on, up to its deferred functions. -/
def handleGated (msg : Message) (ir : InternalRequest) (r : GateReturn) : Code Unit :=
  match r.verdict with
  | .error _ => call (.nack msg.id)
  | .ok v =>
    match v.action with
    | .refuse => call (.nackLater msg.id)
    | .drop => do
      call (.sendResult (droppedResult (ir.relabel r.req) v))
      awaitResult msg
    -- `ActionWait` is not looked at, so it is treated like `ActionContinue`.
    | _ => do
      call (.sendRequest (ir.relabel r.req))
      awaitResult msg

def callback (sub : Subscription) (msg : Message) : Code Unit :=
  match sub.decode msg.data with
  | none => call (.ack msg.id)
  | some wire => do
    call (.storeChannel msg.id)
    let r : GateReturn ← call (.apply (request sub msg wire).gateRequest)
    handleGated msg (request sub msg wire) r
    call (.deleteChannel msg.id)
    call (.releaseGates r.releases)

end LlmdAsync.PubSub
