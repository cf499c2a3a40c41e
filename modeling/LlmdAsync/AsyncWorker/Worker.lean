import LlmdAsync.Foundation.JsonText
import LlmdAsync.FlowControl.Gate

/-!
# The worker

`processMessage` of `WorkerWithGateTimeout` in `pkg/asyncworker/worker.go`, with the functions it
calls: what happens to a message between the request channel and the retry channel or the result
channel.

Its actions are readings of the clock and of contexts, the cancellation checker, the transforms, the
actions of the pool gate, the inference client and the two channels.  A message is offered to a
channel in a `select` that also waits for the end of `requestCtx`, and the answer tells which
happened.  Times are in nanoseconds.  The goroutine that watches for cancellation during a send is a
part of the answer to the send.  Metrics, spans and logging are left out.
-/

namespace LlmdAsync.AsyncWorker

open FlowControl (GateAction GateRequest GateReturn Gate Hold LocalGate Verdict)

/-! ### Values -/

/-- `time.Second`. -/
def second : ℤ := 1000000000

/-- `InternalRouting`. -/
structure InternalRouting where
  retryCount : ℕ
  queueID : String
  requestToken : String
  dispatchAttempt : ℤ
  requestQueueName : String
  resultQueueName : String
  resultTTLSeconds : ℤ
  resultRoutingResolved : Bool
  transportCorrelationID : String
  enqueueSeq : ℤ
  payloadRef : String
  labels : Hash String String

/-- `EmbelishedRequestMessage` with a public request that is not `nil`, as far as the worker reads
it.  The deadline is in seconds. -/
structure Message where
  id : String
  deadline : ℤ
  payload : Bytes
  metadata : Hash String String
  routing : InternalRouting
  httpHeaders : List (String × String)
  requestURL : String

namespace Message

def gateRequest (msg : Message) : GateRequest := ⟨msg.id, msg.metadata, msg.routing.labels⟩

def relabel (msg : Message) (req : GateRequest) : Message :=
  { msg with routing := { msg.routing with labels := req.labels } }

/-- `time.Unix` of the deadline. -/
def deadlineNs (msg : Message) : ℤ := msg.deadline * second

/-- `requestDeadlineReached`. -/
def deadlineReached (msg : Message) (now : ℤ) : Bool :=
  if msg.deadline ≤ 0 then false else decide (msg.deadlineNs ≤ now)

end Message

/-- `RetryMessage`; the backoff is in seconds. -/
structure RetryMessage where
  msg : Message
  backoff : ℚ

/-- `ResultMessage`. -/
structure ResultMessage where
  id : String
  statusCode : ℤ
  payload : String
  errorCode : String
  errorMessage : String
  routing : InternalRouting
  metadata : Hash String String

/-- `ErrCodeDeadlineExceeded`. -/
def errCodeDeadlineExceeded : String := "DEADLINE_EXCEEDED"

/-- `ErrorCategory`. -/
inductive ErrorCategory where
  | rateLimit
  | server
  | invalidReq
  | auth
  | parse
  | unknown
deriving DecidableEq, Repr

/-- `Fatal`. -/
def ErrorCategory.fatal (c : ErrorCategory) : Bool := c ≠ .rateLimit && c ≠ .server

/-- `InferenceResponse`. -/
structure InferenceResponse where
  statusCode : ℤ
  body : String

/-- An error of `SendRequest`.  The category is that of an `InferenceError`, and `retryAfter`, in
nanoseconds, that of a `ClientError`. -/
structure SendError where
  text : String
  /-- `errors.Is` finds `context.Canceled` or `context.DeadlineExceeded`. -/
  ofContext : Bool
  category : Option ErrorCategory
  retryAfter : ℤ

/-- What `SendRequest` returns, and what the watcher returns when it is stopped. -/
structure SendReply where
  outcome : Except (Option InferenceResponse × SendError) InferenceResponse
  cancelledInFlight : Bool

/-- The parameters of a worker. -/
structure Worker where
  requestTimeout : ℤ
  gateWaitTimeout : ℤ
  /-- `requestCtx` carries a cancellation checker. -/
  hasChecker : Bool
  poolGate : Option Gate
  /-- The local gates of the pool gate. -/
  locals : ℕ → LocalGate
  /-- `json.Marshal` of the map with an error message. -/
  errorPayload : String → String

/-! ### Actions -/

inductive Action where
  /-- `time.Now`. -/
  | now
  /-- `requestCtx.Err() != nil`. -/
  | requestCtxErr
  /-- `IsCancelled`; an error is `none`. -/
  | isCancelled (id token : String)
  /-- `transforms.Validate`; the answer is the text of an error. -/
  | validate (payload : Bytes) (metadata : Hash String String) (deadline : ℤ)
  /-- `transforms.Apply`; a transform that handles the message gives a body and a content type. -/
  | transform (payload : Bytes) (metadata : Hash String String)
  | gate (a : GateAction)
  /-- `Apply` of the pool gate returns, and has left these labels. -/
  | gateReturned (verdict : Except String Verdict) (labels : Hash String String)
  /-- After an error of the gate: it is `context.DeadlineExceeded`, or `gateCtx.Err() != nil`. -/
  | gateCtxDone
  /-- Wait for a timer of at least `wait`, or for the end of `gateCtx`.  It is not before `t`. -/
  | park (t deadline wait : ℤ)
  | send (url : String) (headers : List (String × String)) (payload : Bytes)
  /-- `errors.Is(reqCtx.Err(), context.DeadlineExceeded)`, for a context with this deadline. -/
  | reqCtxExceeded (deadline : ℤ)
  /-- `rand.Float64`. -/
  | random
  /-- Send on the retry channel. -/
  | putRetry (m : RetryMessage)
  /-- Send on the retry channel, or give up because `requestCtx` has ended. -/
  | offerRetry (m : RetryMessage)
  /-- Send on the result channel, or give up because `requestCtx` has ended. -/
  | offerResult (r : ResultMessage)

/-- The answers.  A parked worker is woken by its timer, no earlier than it asked for and only if
the context had not ended when it began to wait, or it is woken by the end of the context. -/
@[reducible] def Action.Reply : Action → Type
  | .now => ℤ
  | .requestCtxErr => Bool
  | .isCancelled .. => Option Bool
  | .validate .. => Option String
  | .transform .. => Except String (Option (Bytes × String))
  | .gate a => a.Reply
  | .gateCtxDone => Bool
  | .park t deadline wait => Option { t' : ℤ // t < deadline ∧ t + wait ≤ t' }
  | .send .. => SendReply
  | .reqCtxExceeded _ => Bool
  | .random => ℚ
  | .offerRetry _ => Bool
  | .offerResult _ => Bool
  | _ => Unit

abbrev Code (α : Type) := Prog Action Action.Reply α

def call (a : Action) : Code a.Reply := Prog.perform a

def ofGate {α : Type} (p : FlowControl.GateCode α) : Code α := p.embed Action.gate fun _ r => r

/-- `ReleaseGateReleases`. -/
def releaseGateReleases (releases : List Hold) : Code Unit :=
  ofGate (FlowControl.releaseAll releases.reverse)

/-- Offer a result, whatever happens. -/
def emit (r : ResultMessage) : Code Unit := do
  let _ ← call (.offerResult r)

/-- Offer a retry, whatever happens. -/
def requeue (m : RetryMessage) : Code Unit := do
  let _ ← call (.offerRetry m)

/-! ### Results -/

section Results

variable (w : Worker) (msg : Message)

/-- `NewErrorResult`. -/
def Worker.newErrorResult (errorCode errMsg : String) : ResultMessage where
  id := msg.id
  statusCode := 0
  payload := w.errorPayload errMsg
  errorCode := errorCode
  errorMessage := errMsg
  routing := msg.routing
  metadata := msg.metadata

/-- `NewDeadlineExceededResult`. -/
def Worker.newDeadlineExceededResult : ResultMessage :=
  w.newErrorResult msg errCodeDeadlineExceeded "deadline exceeded"

/-- `NewCancelledResult`. -/
def Worker.newCancelledResult : ResultMessage := w.newErrorResult msg "CANCELLED" "cancelled"

/-- `NewGateDroppedResult`. -/
def Worker.newGateDroppedResult : ResultMessage :=
  w.newErrorResult msg "GATE_DROPPED" "Pool gating dropped request"

/-- `NewHTTPResult`. -/
def newHTTPResult (resp : InferenceResponse) : ResultMessage where
  id := msg.id
  statusCode := resp.statusCode
  payload := resp.body
  errorCode := ""
  errorMessage := ""
  routing := msg.routing
  metadata := msg.metadata

/-- The result of a message that the gate drops.  A gate that has a result of its own gives it the
routing of the message. -/
def Worker.droppedResult (v : Verdict) : ResultMessage :=
  match v.result with
  | some r => ⟨r.id, 0, r.payload, "", "", msg.routing, .empty⟩
  | none => w.newGateDroppedResult msg

/-- `deadlineExhaustedResult`. -/
def Worker.deadlineExhaustedResult (lastResp : Option InferenceResponse) : ResultMessage :=
  match lastResp with
  | some resp =>
    if 0 < resp.statusCode then newHTTPResult msg resp else w.newDeadlineExceededResult msg
  | none => w.newDeadlineExceededResult msg

end Results

/-! ### Cancellation and validation -/

/-- `emitCancelledResultIfNeeded`: whether the message is done with, and the new value of
`nextCancellationCheck`. -/
def Worker.emitCancelledResultIfNeeded (w : Worker) (msg : Message) (nextCheck : Option ℤ) :
    Code (Bool × Option ℤ) := do
  let now : ℤ ← call .now
  if nextCheck.any (fun check => decide (now < check)) || !w.hasChecker then
    pure (false, nextCheck)
  else
    let cancelled : Option Bool ← call (.isCancelled msg.id msg.routing.requestToken)
    match cancelled with
    | none =>
      requeue ⟨msg, 1⟩
      pure (true, some (now + second))
    | some false => pure (false, some (now + second))
    | some true =>
      emit (w.newCancelledResult msg)
      pure (true, some (now + second))

/-- `payloadBytes`. -/
def Message.payloadBytes (msg : Message) : Bytes :=
  if msg.payload = [] then JsonText.null else msg.payload

/-- `validateAndMarshal`: the bytes to send, unless the message is done with. -/
def Worker.validateAndMarshal (w : Worker) (msg : Message) : Code (Option Bytes) :=
  if msg.deadline ≤ 0 then do
    emit (w.newErrorResult msg "INVALID_REQUEST"
      "Failed: deadline is missing or invalid (Unix seconds).")
    pure none
  else do
    let now : ℤ ← call .now
    if msg.deadline < now / second then
      emit (w.newDeadlineExceededResult msg)
      pure none
    else
      let failed : Option String ← call (.validate msg.payloadBytes msg.metadata msg.deadline)
      match failed with
      | some err =>
        emit (w.newErrorResult msg "INVALID_REQUEST"
          ("Failed to validate request for transform: " ++ err))
        pure none
      | none => pure (some msg.payloadBytes)

/-! ### The pool gate -/

/-- `finishGateContext`. -/
def Worker.finishGateContext (w : Worker) (msg : Message) : Code Unit := do
  let cancelled : Bool ← call .requestCtxErr
  let now : ℤ ← if cancelled then pure 0 else call .now
  if !cancelled && msg.deadlineReached now then emit (w.newDeadlineExceededResult msg)
  else
    let sent : Bool ← call (.offerRetry ⟨msg, 0⟩)
    if sent then pure () else call (.putRetry ⟨msg, 0⟩)

/-- `gateWaitInitialBackoff`. -/
def gateWaitInitialBackoff : ℤ := 100000000

/-- `gateWaitMaxBackoff`. -/
def gateWaitMaxBackoff : ℤ := second

/-- `nextGateWaitBackoff`. -/
def nextGateWaitBackoff (current : ℤ) : ℤ :=
  if gateWaitMaxBackoff / 2 ≤ current then gateWaitMaxBackoff else current * 2

/-- `gateWaitBackoff` after some waits. -/
def gateWaitBackoff : ℕ → ℤ
  | 0 => gateWaitInitialBackoff
  | waits + 1 => nextGateWaitBackoff (gateWaitBackoff waits)

lemma gateWaitInitialBackoff_le (waits : ℕ) : gateWaitInitialBackoff ≤ gateWaitBackoff waits := by
  induction waits with
  | zero => exact le_refl _
  | succ waits ih =>
    rw [gateWaitBackoff, nextGateWaitBackoff]
    by_cases hmax : gateWaitMaxBackoff / 2 ≤ gateWaitBackoff waits
    · rw [if_pos hmax]
      decide
    · rw [if_neg hmax]
      unfold gateWaitInitialBackoff at ih ⊢
      omega

/-- How the gate has let go of a message. -/
inductive GateOutcome where
  /-- The message is done with. -/
  | finished (releases : List Hold)
  /-- The message may be sent. -/
  | passed (msg : Message) (releases : List Hold) (nextCheck : Option ℤ)

/-- The deadline of `gateCtx`.  The message has a deadline, or `validateAndMarshal` would not have
let it through. -/
def Worker.gateDeadline (w : Worker) (msg : Message) (now : ℤ) : ℤ :=
  if 0 < w.gateWaitTimeout then min (now + w.gateWaitTimeout) msg.deadlineNs else msg.deadlineNs

/-- The loop around the gate.  It is not before `t`.  `jitteredGateWait` draws a wait between half
of the backoff and the backoff, so the loop gets on towards the deadline. -/
def Worker.gateLoop (w : Worker) (g : Gate) (deadline : ℤ) (waits : ℕ) (t : ℤ) (msg : Message)
    (releases : List Hold) (nextCheck : Option ℤ) : Code GateOutcome := do
  let check ← w.emitCancelledResultIfNeeded msg nextCheck
  if check.1 then pure (.finished releases)
  else
    let r ← ofGate (g.apply w.locals msg.gateRequest releases)
    call (.gateReturned r.verdict r.req.labels)
    match r.verdict with
    | .error e =>
      let done : Bool ← call .gateCtxDone
      if done then w.finishGateContext (msg.relabel r.req)
      else emit (w.newErrorResult (msg.relabel r.req) "GATE_ERROR" ("Pool gating error: " ++ e))
      pure (.finished r.releases)
    | .ok v =>
      match v.action with
      | .proceed => pure (.passed (msg.relabel r.req) r.releases check.2)
      | .drop =>
        emit (w.droppedResult (msg.relabel r.req) v)
        pure (.finished r.releases)
      | .refuse =>
        requeue ⟨msg.relabel r.req, 0⟩
        pure (.finished r.releases)
      | .wait =>
        let woken : Option { t' : ℤ // t < deadline ∧ t + gateWaitBackoff waits / 2 ≤ t' } ←
          call (.park t deadline (gateWaitBackoff waits / 2))
        match woken with
        | none =>
          w.finishGateContext (msg.relabel r.req)
          pure (.finished r.releases)
        | some ⟨t', _⟩ =>
          w.gateLoop g deadline (waits + 1) t' (msg.relabel r.req) r.releases check.2
termination_by (deadline - t).toNat
decreasing_by
  rename_i h
  have hbackoff := gateWaitInitialBackoff_le waits
  unfold gateWaitInitialBackoff at hbackoff
  omega

/-- The gate, if there is one.  The clock is read for its deadline. -/
def Worker.passGate (w : Worker) (msg : Message) (nextCheck : Option ℤ) : Code GateOutcome :=
  match w.poolGate with
  | none => pure (.passed msg [] nextCheck)
  | some g => do
    let now : ℤ ← call .now
    w.gateLoop g (w.gateDeadline msg now) 0 now msg [] nextCheck

/-! ### Sending -/

/-- `expBackoffDuration`, with the number drawn by `rand.Float64`. -/
def expBackoffDuration (retryCount : ℕ) (secondsToDeadline : ℤ) (draw : ℚ) : ℚ :=
  if secondsToDeadline ≤ 0 then 0
  else
    let capLevel := min 60 (secondsToDeadline : ℚ)
    let half := min capLevel (2 * 2 ^ retryCount) / 2
    half + draw * half

/-- `finalDuration` in `retryMessage`, with the two numbers drawn. -/
def finalDuration (retryCount : ℕ) (secondsToDeadline retryAfter : ℤ) (draw jitter : ℚ) : ℚ :=
  let backoff := expBackoffDuration retryCount secondsToDeadline draw
  let retryAfterSec : ℚ := retryAfter / second
  if backoff < retryAfterSec then
    max backoff (min retryAfterSec (secondsToDeadline / 2) * (1 + jitter / 4))
  else backoff

/-- The message with its retry count raised. -/
def Message.retried (msg : Message) : Message :=
  { msg with routing := { msg.routing with retryCount := msg.routing.retryCount + 1 } }

/-- `retryMessage`.  The code draws the second number only where it is used. -/
def Worker.retryMessage (w : Worker) (msg : Message) (retryAfter : ℤ)
    (lastResp : Option InferenceResponse) : Code Unit := do
  let now : ℤ ← call .now
  if msg.deadline - now / second ≤ 0 then emit (w.deadlineExhaustedResult msg lastResp)
  else
    let draw : ℚ ← call .random
    let jitter : ℚ ← call .random
    requeue ⟨msg.retried, finalDuration (msg.routing.retryCount + 1) (msg.deadline - now / second)
      retryAfter draw jitter⟩

/-- `headersWithContentType`. -/
def headersWithContentType (headers : List (String × String)) (contentType : String) :
    List (String × String) :=
  (headers.filter fun h => h.1.toLower ≠ "content-type") ++ [("Content-Type", contentType)]

/-- The headers and the body that are sent: those of the transform that has handled the message, or
the message's own. -/
def Message.outgoing (msg : Message) (payloadBytes : Bytes) :
    Option (Bytes × String) → List (String × String) × Bytes
  | some (body, contentType) => (headersWithContentType msg.httpHeaders contentType, body)
  | none => (msg.httpHeaders, payloadBytes)

/-- `reqDeadline`. -/
def Worker.reqDeadline (w : Worker) (msg : Message) (now : ℤ) : ℤ :=
  if 0 < msg.deadline then min (now + w.requestTimeout) msg.deadlineNs else now + w.requestTimeout

/-- What follows a send that has failed. -/
def Worker.sendFailed (w : Worker) (msg : Message) (reqDeadline : ℤ)
    (resp : Option InferenceResponse) (err : SendError) (cancelledInFlight : Bool) : Code Unit := do
  let cancelled : Bool ← call .requestCtxErr
  if cancelled && err.ofContext then call (.putRetry ⟨msg, 0⟩)
  else if cancelledInFlight then emit (w.newCancelledResult msg)
  else
    let exceeded : Bool ← call (.reqCtxExceeded reqDeadline)
    if exceeded then emit (w.newDeadlineExceededResult msg)
    else if err.category.all ErrorCategory.fatal then
      match resp.filter fun resp => decide (0 < resp.statusCode) with
      | some resp => emit (newHTTPResult msg resp)
      | none => emit (w.newErrorResult msg "INFERENCE_ERROR"
          ("Failed to send request to inference: " ++ err.text))
    else w.retryMessage msg err.retryAfter resp

/-- `sendInferenceRequest`. -/
def Worker.sendInferenceRequest (w : Worker) (msg : Message) (payloadBytes : Bytes)
    (nextCheck : Option ℤ) : Code Unit := do
  let now : ℤ ← call .now
  let transformed : Except String (Option (Bytes × String)) ←
    call (.transform payloadBytes msg.metadata)
  match transformed with
  | .error err =>
    emit (w.newErrorResult msg "INVALID_REQUEST" ("Failed to transform request body: " ++ err))
  | .ok handled =>
    let check ← w.emitCancelledResultIfNeeded msg nextCheck
    if check.1 then pure ()
    else
      let reply : SendReply ← call (.send msg.requestURL (msg.outgoing payloadBytes handled).1
        (msg.outgoing payloadBytes handled).2)
      match reply.outcome with
      | .ok resp => emit (newHTTPResult msg resp)
      | .error failed =>
        w.sendFailed msg (w.reqDeadline msg now) failed.1 failed.2 reply.cancelledInFlight

/-! ### Messages -/

/-- What follows the gate. -/
def Worker.dispatch (w : Worker) (msg : Message) (payloadBytes : Bytes) (nextCheck : Option ℤ) :
    Code Unit := do
  let check ← w.emitCancelledResultIfNeeded msg nextCheck
  if check.1 then pure () else w.sendInferenceRequest msg payloadBytes check.2

/-- `processMessage`.  What the gate has reserved is released at the end. -/
def Worker.processMessage (w : Worker) (msg : Message) : Code Unit := do
  let check ← w.emitCancelledResultIfNeeded msg none
  if check.1 then pure ()
  else
    let payload ← w.validateAndMarshal msg
    match payload with
    | none => pure ()
    | some payloadBytes =>
      let outcome ← w.passGate msg check.2
      match outcome with
      | .finished releases => releaseGateReleases releases
      | .passed msg releases nextCheck =>
        w.dispatch msg payloadBytes nextCheck
        releaseGateReleases releases

end LlmdAsync.AsyncWorker
