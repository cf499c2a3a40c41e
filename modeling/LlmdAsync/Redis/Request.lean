import LlmdAsync.Redis.ClaimKey

/-!
# Requests and results of the sorted-set transport

The Go values of `api/internal_api.go` and `api/api.go` that travel through Redis and through the
channels of a dispatcher.  Scores are the exact rationals that `float64` rounds.

A member of a sorted set is the JSON text of an `InternalRequest`.  What the development needs of
`encoding/json` is collected in `Codec`: encoding succeeds, and decoding gives the request back, up
to its payload (which is `null` when it was absent or is kept under a key of its own).
-/

namespace LlmdAsync.Redis

/-- `InternalRouting`, without the fields of other transports. -/
structure InternalRouting where
  retryCount : ℕ
  queueID : String
  requestToken : String
  requestQueueName : String
  resultQueueName : String
  resultTTLSeconds : ℤ
  resultRoutingResolved : Bool
  enqueueSeq : ℤ
  payloadRef : String
  labels : List (String × String)
deriving DecidableEq, Repr

/-- `InternalRequest`: a public request with its routing.  Of the public request, the dispatcher
itself only looks at id, deadline and payload. -/
structure InternalRequest where
  id : String
  deadline : ℤ
  payload : Option String
  routing : InternalRouting
deriving DecidableEq, Repr

namespace InternalRequest

/-- The field under which claims of the request are kept. -/
def claimKey (ir : InternalRequest) : String := Redis.claimKey ir.id ir.routing.requestToken

/-- `QueueScore`: the deadline, and below it the sequence number. -/
def queueScore (ir : InternalRequest) : ℚ :=
  ir.deadline + (min (max ir.routing.enqueueSeq 0) (2 ^ 21 - 1) : ℤ) / 2 ^ 21

end InternalRequest

/-- What `encoding/json` does to requests. -/
structure Codec (M : Type) where
  encode : InternalRequest → Option M
  decode : M → Option InternalRequest
  /-- Requests survive encoding and decoding, up to the payload. -/
  decode_encode : ∀ ir, ∃ m ir', encode ir = some m ∧ decode m = some ir' ∧ ir'.id = ir.id ∧
    ir'.deadline = ir.deadline ∧ ir'.routing = ir.routing

namespace Codec

variable {M : Type} (codec : Codec M)

/-- `parseMessage`: what cannot be decoded or has no deadline is rejected. -/
def parseMessage (member : M) : Option InternalRequest :=
  (codec.decode member).filter fun ir => decide (0 < ir.deadline)

end Codec

/-- A codec whose members are the requests themselves, and one member that is none. -/
def plainCodec : Codec (Option InternalRequest) where
  encode ir := some (some ir)
  decode m := m
  decode_encode ir := ⟨some ir, ir, rfl, rfl, rfl, rfl, rfl⟩

/-! ### Results -/

/-- `ResultMessage`. -/
structure ResultMessage where
  id : String
  statusCode : ℤ
  payload : String
  errorCode : String
  errorMessage : String
  routing : InternalRouting
deriving DecidableEq, Repr

/-- `InternalResult`, the record in a result list. -/
structure ResultRecord where
  id : String
  statusCode : ℤ
  payload : String
  errorCode : String
  errorMessage : String
  requestToken : String
deriving DecidableEq, Repr

/-- `marshalResult`; the record holds nothing but strings and numbers, so marshalling succeeds. -/
def marshalResult (r : ResultMessage) : ResultRecord where
  id := r.id
  statusCode := r.statusCode
  payload := r.payload
  errorCode := r.errorCode
  errorMessage := r.errorMessage
  requestToken := r.routing.requestToken

/-- `NewErrorResult`. -/
def newErrorResult (ir : InternalRequest) (errorCode errMsg : String) : ResultMessage where
  id := ir.id
  statusCode := 0
  payload := "\x7b\"error\":\"" ++ errMsg ++ "\"\x7d"
  errorCode := errorCode
  errorMessage := errMsg
  routing := ir.routing

/-- `NewDeadlineExceededResult`. -/
def newDeadlineExceededResult (ir : InternalRequest) : ResultMessage :=
  newErrorResult ir "DEADLINE_EXCEEDED" "deadline exceeded"

/-- `NewCancelledResult`. -/
def newCancelledResult (ir : InternalRequest) : ResultMessage :=
  newErrorResult ir "CANCELLED" "cancelled"

/-- `NewGateDroppedResult`. -/
def newGateDroppedResult (ir : InternalRequest) : ResultMessage :=
  newErrorResult ir "GATE_DROPPED" "Pool gating dropped request"

/-- The result for a request whose payload key is gone. -/
def newPayloadUnavailableResult (ir : InternalRequest) : ResultMessage :=
  newErrorResult ir "PAYLOAD_UNAVAILABLE" "request payload is missing"

/-- `NewHTTPResult`. -/
def newHTTPResult (ir : InternalRequest) (statusCode : ℤ) (body : String) : ResultMessage where
  id := ir.id
  statusCode := statusCode
  payload := body
  errorCode := ""
  errorMessage := ""
  routing := ir.routing

end LlmdAsync.Redis
