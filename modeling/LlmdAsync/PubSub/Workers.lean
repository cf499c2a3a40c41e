import LlmdAsync.PubSub.Receive

/-!
# The goroutines of the Pub/Sub transport

`resultWorker`, `signalPublished` and `addMsgToRetryQueue` of `pkg/pubsub/pubsubimpl.go`, and the
system they form with the receive callbacks.

A callback learns what became of its request through a channel with one slot.  It finds the channel
in its local variable; everybody else looks it up in `resultChannels`, a map from message IDs that
all deliveries of a message share.  Channels are numbered like the deliveries.

The result and the retry channel, and the request channels together, are lists of what has been sent
and not yet received, and a receiver may get any element.  The workers between them belong to the
environment, and so do the server, the goroutine of a delayed `Nack` and shutdown.  The cache of
publishers and the text of a published result are left out.
-/

namespace LlmdAsync.PubSub

open FlowControl (GateReturn)

/-! ### Actions -/

inductive FlowAction where
  /-- An action of a receive callback. -/
  | callback (a : Action)
  /-- Receive from the result channel, or learn that the context has ended. -/
  | nextResult
  /-- `publishPubSub`, and start the goroutine that waits for the server's answer. -/
  | publish (topicID : String) (result : ResultMessage)
  /-- `res.Get`: whether the publish succeeded. -/
  | awaitPublish (n : ℕ)
  /-- `resultChannels.Load`. -/
  | loadChannel (id : String)
  /-- Send on a channel of `resultChannels`. -/
  | signal (channel : ℕ) (published : Bool)
  /-- Receive from the retry channel, or learn that the context has ended and nothing is left. -/
  | nextRetry

@[reducible] def FlowAction.Reply : FlowAction → Type
  | .callback a => a.Reply
  | .nextResult => Option ResultMessage
  | .awaitPublish _ => Bool
  | .loadChannel _ => Option ℕ
  | .nextRetry => Option (Option InternalRequest)
  | _ => Unit

abbrev FlowCode (α : Type) := Prog FlowAction FlowAction.Reply α

def perform (a : FlowAction) : FlowCode a.Reply := Prog.perform a

/-! ### The result worker -/

/-- `signalPublished`. -/
def signalPublished (correlationID : String) (published : Bool) : FlowCode Unit := do
  let value : Option ℕ ← perform (.loadChannel correlationID)
  match value with
  | none => pure ()
  | some channel => perform (.signal channel published)

def resultTopic (defaultTopicID : String) (msg : ResultMessage) : String :=
  if msg.routing.resultQueueName = "" then defaultTopicID else msg.routing.resultQueueName

/-- What `resultWorker` does with one result. -/
def handleResult (defaultTopicID : String) (msg : ResultMessage) : FlowCode Unit :=
  if resultTopic defaultTopicID msg = "" then
    signalPublished msg.routing.transportCorrelationID false
  else perform (.publish (resultTopic defaultTopicID msg) msg)

/-- `resultWorker`, for a number of rounds. -/
def resultWorker (defaultTopicID : String) : ℕ → FlowCode Unit
  | 0 => pure ()
  | rounds + 1 => do
    let next : Option ResultMessage ← perform .nextResult
    match next with
    | none => pure ()
    | some msg => do
      handleResult defaultTopicID msg
      resultWorker defaultTopicID rounds

/-- The goroutine that `resultWorker` starts for its `n`-th publish. -/
def publishWaiter (n : ℕ) (correlationID : String) : FlowCode Unit := do
  let ok : Bool ← perform (.awaitPublish n)
  if ok then signalPublished correlationID true else signalPublished correlationID false

/-! ### The retry worker -/

/-- `handleRetry`.  A retry message is its request, which may be `nil`. -/
def handleRetry (msg : Option InternalRequest) : FlowCode Unit :=
  match msg with
  | none => pure ()
  | some ir => do
    let value : Option ℕ ← perform (.loadChannel ir.routing.transportCorrelationID)
    match value with
    | none => pure ()
    | some channel => perform (.signal channel false)

/-- `addMsgToRetryQueue`, for a number of rounds.  The loop that empties the channel after the
context has ended does the same in each round. -/
def addMsgToRetryQueue : ℕ → FlowCode Unit
  | 0 => pure ()
  | rounds + 1 => do
    let next : Option (Option InternalRequest) ← perform .nextRetry
    match next with
    | none => pure ()
    | some msg => do
      handleRetry msg
      addMsgToRetryQueue rounds

/-! ### State -/

inductive Thread where
  /-- The receive callback of a delivery. -/
  | callback (d : ℕ)
  | resultWorker
  /-- The goroutine that waits for a publish. -/
  | publishWaiter (n : ℕ)
  | retryWorker
deriving DecidableEq

inductive Operation where
  /-- A callback. -/
  | receive
  /-- The loop of a worker, for a number of rounds.  A worker that has run them all may go on. -/
  | work (rounds : ℕ)
  /-- Wait for a publish, knowing the correlation ID of its result. -/
  | await (correlationID : String)

/-- A value sent on a channel of `resultChannels`, and who sent it. -/
structure Word where
  published : Bool
  sender : Thread
deriving DecidableEq

/-- What has happened to a delivery. -/
structure Delivery where
  /-- Its channel has been made. -/
  opened : Bool := false
  /-- The gate has refused it or failed. -/
  declined : Bool := false
  /-- What the callback has received from its channel. -/
  word : Option Word := none
  /-- The goroutine of the delayed `Nack` is waiting. -/
  nackPending : Bool := false
  /-- Calls of `Ack`. -/
  acks : ℕ := 0
  /-- Calls of `Nack`. -/
  nacks : ℕ := 0
deriving DecidableEq

/-- A publish that `resultWorker` has started. -/
structure Publish where
  topicID : String
  result : ResultMessage

/-- How far the goroutine of a publish has come. -/
inductive Waiting where
  | pending
  /-- `res.Get` has returned. -/
  | answered (published : Bool)
  /-- The callback's channel has got the answer. -/
  | reported (published : Bool)
deriving DecidableEq

/-- The shared state, and what is recorded about deliveries and publishes. -/
structure State where
  /-- `resultChannels`. -/
  resultChannels : String → Option ℕ
  /-- The content of the channels. -/
  slots : ℕ → Option Word
  deliveries : ℕ → Delivery
  requests : List InternalRequest
  results : List ResultMessage
  retries : List (Option InternalRequest)
  publishes : List Publish
  /-- The publishes that the server has accepted. -/
  accepted : List ℕ
  waiting : ℕ → Waiting
  /-- The context of the workers has ended. -/
  stopped : Bool
  /-- The result worker has returned. -/
  resultsClosed : Bool
  /-- The retry worker has returned. -/
  retriesClosed : Bool

namespace State

def init : State where
  resultChannels := fun _ => none
  slots := fun _ => none
  deliveries := fun _ => {}
  requests := []
  results := []
  retries := []
  publishes := []
  accepted := []
  waiting := fun _ => .pending
  stopped := false
  resultsClosed := false
  retriesClosed := false

/-- Change what is recorded about a delivery. -/
def revise (s : State) (d : ℕ) (f : Delivery → Delivery) : State :=
  { s with deliveries := Function.update s.deliveries d (f (s.deliveries d)) }

end State

/-! ### The system -/

structure Choice where
  /-- What the gate returns. -/
  gate : GateReturn
  /-- Which element of a channel is received. -/
  pick : ℕ
  /-- Whether `res.Get` returns without an error. -/
  ok : Bool
  /-- Whether a worker sees that the context has ended. -/
  stop : Bool

/-- The gate has refused the request or failed. -/
def declines (r : GateReturn) : Bool :=
  match r.verdict with
  | .error _ => true
  | .ok v => v.action == .refuse

/-- An action of the callback of a delivery. -/
def execCallback (d : ℕ) : (a : Action) → Choice → State → Option (a.Reply × State)
  | .apply _, c, s => some (c.gate, s.revise d fun x => { x with declined := declines c.gate })
  | .releaseGates _, _, s => some ((), s)
  | .storeChannel id, _, s =>
    some ((), { s with resultChannels := Function.update s.resultChannels id (some d) }.revise d
      fun x => { x with opened := true })
  | .deleteChannel id, _, s =>
    some ((), { s with resultChannels := Function.update s.resultChannels id none })
  | .receive _, _, s =>
    match s.slots d with
    | none => none
    | some w => some (w.published, { s with slots := Function.update s.slots d none }.revise d
        fun x => { x with word := some w })
  | .sendRequest ir, _, s => some ((), { s with requests := s.requests ++ [ir] })
  | .sendResult result, _, s => some ((), { s with results := s.results ++ [result] })
  | .ack _, _, s => some ((), s.revise d fun x => { x with acks := x.acks + 1 })
  | .nack _, _, s => some ((), s.revise d fun x => { x with nacks := x.nacks + 1 })
  | .nackLater _, _, s => some ((), s.revise d fun x => { x with nackPending := true })

/-- What the goroutine that waits for a publish has done once it has sent the answer. -/
def report (t : Thread) (published : Bool) (s : State) : State :=
  match t with
  | .publishWaiter n => { s with waiting := Function.update s.waiting n (.reported published) }
  | _ => s

def exec (t : Thread) : (a : FlowAction) → Choice → State → Option (a.Reply × State)
  | .callback a, c, s =>
    match t with
    | .callback d => execCallback d a c s
    | _ => none
  | .nextResult, c, s =>
    if c.stop then
      if s.stopped then some (none, { s with resultsClosed := true }) else none
    else
      match s.results[c.pick]? with
      | none => none
      | some msg => some (some msg, { s with results := s.results.eraseIdx c.pick })
  | .publish topicID result, _, s =>
    some ((), { s with publishes := s.publishes ++ [⟨topicID, result⟩] })
  | .awaitPublish n, c, s =>
    -- The answer can get lost, so a publish that has failed may have been accepted.
    if c.ok && !s.accepted.contains n then none
    else some (c.ok, { s with waiting := Function.update s.waiting n (.answered c.ok) })
  | .loadChannel id, _, s => some (s.resultChannels id, s)
  | .signal channel published, _, s =>
    match s.slots channel with
    | some _ => none
    | none => some ((), report t published
        { s with slots := Function.update s.slots channel (some ⟨published, t⟩) })
  | .nextRetry, c, s =>
    if c.stop then
      if s.stopped && s.retries.isEmpty then some (none, { s with retriesClosed := true }) else none
    else
      match s.retries[c.pick]? with
      | none => none
      | some msg => some (some msg, { s with retries := s.retries.eraseIdx c.pick })

inductive Outcome where
  | result (id payload errorCode errorMessage : String)
  | retry

inductive Event where
  /-- A worker takes a request and ends it with its outcome. -/
  | finish (i : ℕ) (outcome : Outcome)
  /-- A retry message without a request. -/
  | emptyRetry
  /-- The server accepts a publish. -/
  | accept (n : ℕ)
  /-- The delayed `Nack` of a delivery. -/
  | delayedNack (d : ℕ)
  /-- The context of the workers ends. -/
  | shutdown

def env : Event → State → Option State
  | .finish i outcome, s =>
    match s.requests[i]? with
    | none => none
    | some ir =>
      let s := { s with requests := s.requests.eraseIdx i }
      match outcome with
      | .result id payload errorCode errorMessage =>
        let msg := ⟨id, payload, errorCode, errorMessage, ir.routing⟩
        some { s with results := s.results ++ [msg] }
      | .retry => some { s with retries := s.retries ++ [some ir] }
  | .emptyRetry, s => some { s with retries := s.retries ++ [none] }
  | .accept n, s =>
    if n < s.publishes.length then some { s with accepted := n :: s.accepted } else none
  | .delayedNack d, s =>
    if (s.deliveries d).nackPending then
      some (s.revise d fun x => { x with nackPending := false, nacks := x.nacks + 1 })
    else none
  | .shutdown, s => some { s with stopped := true }

/-- The callback as a part of the system. -/
def receiveCallback (sub : Subscription) (msg : Message) : FlowCode Unit :=
  (callback sub msg).embed FlowAction.callback fun _ r => r

/-- The code of a goroutine.  Delivery `d` is the message `(inbox d).2` on the subscription
`(inbox d).1`; several deliveries may be of the same message. -/
def program (inbox : ℕ → Subscription × Message) (defaultTopicID : String) :
    Thread → Operation → FlowCode Unit
  | .callback d, .receive => receiveCallback (inbox d).1 (inbox d).2
  | .resultWorker, .work rounds => resultWorker defaultTopicID rounds
  | .publishWaiter n, .await correlationID => publishWaiter n correlationID
  | .retryWorker, .work rounds => addMsgToRetryQueue rounds
  | _, _ => pure ()

def starts : Thread → Operation → State → Bool
  | .callback d, .receive, s => decide (s.deliveries d = {})
  | .resultWorker, .work _, s => !s.resultsClosed
  | .publishWaiter n, .await correlationID, s =>
    match s.publishes[n]? with
    | none => false
    | some p => decide (s.waiting n = .pending) &&
        decide (p.result.routing.transportCorrelationID = correlationID)
  | .retryWorker, .work _, s => !s.retriesClosed
  | _, _, _ => false

/-- The goroutines of the Pub/Sub transport. -/
def flow (inbox : ℕ → Subscription × Message) (defaultTopicID : String) :
    ThreadSystem FlowAction FlowAction.Reply Thread State Choice Operation Event where
  exec := exec
  program := program inbox defaultTopicID
  starts := starts
  env := env
  kills := fun _ _ => false

end LlmdAsync.PubSub
