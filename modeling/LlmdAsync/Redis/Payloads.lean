import LlmdAsync.AsyncWorker.Outcome

/-!
# The way of a payload

A payload is handed to `SubmitRequest` of `producer/redis_sortedset_producer.go`, travels through
Redis as a part of the text of its request or under a key of its own, and is passed to `SendRequest`
by a worker.  On its way the request may be released, reclaimed and retried any number of times.

Texts are records of their fields.  The only field whose bytes matter is the payload: a
`json.RawMessage`, which `encoding/json` compacts and escapes for HTML when it writes it
(`JsonText.compact`) and copies when it reads it.  Since the public request is marshalled on its
own, as a part of the envelope, and as the result of `MarshalJSON`, its payload is compacted three
times.

What is stored and what is under way are lists, and one step is one command of some process.
-/

namespace LlmdAsync.Redis.Payload

open List Hash
open AsyncWorker (InternalRouting Message RetryMessage Worker Action)

/-! ### Texts -/

/-- The concrete type of the public request. -/
inductive RequestKind where
  | plain
  | redis
  | pubsub
deriving DecidableEq, Repr

/-- `RequestMessage`, as far as the dispatcher and the worker read it.  A payload that is `nil` is
empty. -/
structure RequestMessage where
  id : String
  deadline : ℤ
  payload : Bytes
  metadata : Hash String String

/-- `InternalRequest`. -/
structure Request where
  kind : RequestKind
  message : RequestMessage
  routing : InternalRouting

/-- `internalRequestWire`: the text of a request.  Its payload is the text of the payload. -/
structure Wire where
  internal : InternalRouting
  requestKind : RequestKind
  data : RequestMessage

/-- `json.Marshal` of a `RawMessage`. -/
def marshalRaw (raw : Bytes) : Option Bytes :=
  if raw = [] then some JsonText.null else JsonText.compact raw

/-- `json.Marshal` of the public request. -/
def RequestMessage.marshal (m : RequestMessage) : Option RequestMessage :=
  (marshalRaw m.payload).map fun text => { m with payload := text }

/-- The text of the public request as a part of another text. -/
def RequestMessage.copy (m : RequestMessage) : Option RequestMessage :=
  (JsonText.compact m.payload).map fun text => { m with payload := text }

/-- `json.Marshal` of an `InternalRequest`. -/
def Request.marshal (ir : Request) : Option Wire := do
  let data ← ir.message.marshal
  let data ← data.copy
  let data ← data.copy
  pure ⟨ir.routing, ir.kind, data⟩

/-- `json.Unmarshal` into an `InternalRequest`. -/
def Wire.unmarshal (text : Wire) : Request := ⟨text.requestKind, text.data, text.internal⟩

/-- `AttachPayload`. -/
def Request.attachPayload (ir : Request) (payload : Bytes) : Request :=
  { ir with message := { ir.message with payload := payload } }

/-- `SplitPayload`. -/
def Request.splitPayload (ir : Request) : Option (Wire × Bytes) :=
  (ir.attachPayload []).marshal.map fun envelope => (envelope, ir.message.payload)

/-- `encodeRequest`. -/
def Request.encodeRequest (ir : Request) : Option Wire :=
  if ir.routing.payloadRef = "" then ir.marshal else ir.splitPayload.map Prod.fst

/-! ### Submitting -/

/-- What `unicode.IsSpace` accepts, in UTF-8. -/
def unicodeSpaces : List Bytes :=
  [[0x09], [0x0a], [0x0b], [0x0c], [0x0d], [0x20], [0xc2, 0x85], [0xc2, 0xa0], [0xe1, 0x9a, 0x80],
    [0xe2, 0x80, 0x80], [0xe2, 0x80, 0x81], [0xe2, 0x80, 0x82], [0xe2, 0x80, 0x83],
    [0xe2, 0x80, 0x84], [0xe2, 0x80, 0x85], [0xe2, 0x80, 0x86], [0xe2, 0x80, 0x87],
    [0xe2, 0x80, 0x88], [0xe2, 0x80, 0x89], [0xe2, 0x80, 0x8a], [0xe2, 0x80, 0xa8],
    [0xe2, 0x80, 0xa9], [0xe2, 0x80, 0xaf], [0xe2, 0x81, 0x9f], [0xe3, 0x80, 0x80]]

/-- Remove spaces from the front, at most `fuel` of them. -/
def trimFront (spaces : List Bytes) : ℕ → Bytes → Bytes
  | 0, text => text
  | fuel + 1, text =>
    match spaces.find? fun space => space.isPrefixOf text with
    | some space => trimFront spaces fuel (text.drop space.length)
    | none => text

/-- `bytes.TrimSpace`. -/
def trimSpace (text : Bytes) : Bytes :=
  let front := trimFront unicodeSpaces text.length text
  (trimFront (unicodeSpaces.map List.reverse) front.length front.reverse).reverse

/-- The check of the payload in `SubmitRequest`: one that is empty and not `nil` is no JSON. -/
def acceptsPayload (isNil : Bool) (payload : Bytes) : Bool :=
  let trimmed := trimSpace payload
  (isNil && payload.isEmpty) || (JsonText.valid trimmed &&
    (trimmed.head? = some JsonText.openBrace || trimmed = JsonText.null))

/-- `RequestPayloadKey`. -/
def requestPayloadKey (requestID requestToken : String) : String :=
  "request-payload:" ++ requestID ++ ":" ++ requestToken

/-- The tokens of `newRequestToken`: 16 random bytes as hexadecimal digits. -/
def IsToken (token : String) : Prop := token.length = 32

/-- A request that has been submitted. -/
structure Submission where
  id : String
  token : String
  /-- `WithPayloadKeys`. -/
  payloadKeys : Bool
  payload : Bytes

/-- `PayloadRef`. -/
def Submission.payloadRef (sub : Submission) : String :=
  if sub.payloadKeys then requestPayloadKey sub.id sub.token else ""

/-- The routing of a new request: `toInternalRequest` and the defaults of the producer only set the
queues and the correlation id. -/
def newRouting (requestQueue resultQueue correlationID token : String) : InternalRouting where
  retryCount := 0
  queueID := ""
  requestToken := token
  dispatchAttempt := 0
  requestQueueName := requestQueue
  resultQueueName := resultQueue
  resultTTLSeconds := 0
  resultRoutingResolved := false
  transportCorrelationID := correlationID
  enqueueSeq := 0
  payloadRef := ""
  labels := .empty

/-- The text that `SubmitRequest` writes for a request, if it accepts the request; `isNil` tells
whether the payload is `nil`. -/
def submitRequest (payloadKeys isNil : Bool) (req : Request) (now : ℤ) : Option Wire :=
  if req.message.id = "" || decide (req.message.deadline ≤ 0) ||
      decide (req.message.deadline * AsyncWorker.second ≤ now) ||
      !acceptsPayload isNil req.message.payload then none
  else if payloadKeys then
    let ref := requestPayloadKey req.message.id req.routing.requestToken
    ({ req with routing := { req.routing with payloadRef := ref } }).splitPayload.map Prod.fst
  else req.marshal

/-! ### The dispatcher -/

/-- `SortedSetQueueConfig`, as far as a poll reads it. -/
structure QueueConfig where
  queueName : String
  queueID : String
  resultQueueName : String
  resultTTLSeconds : ℤ
  labels : List (String × String)

/-- The stamps of `processMessagesWithConfig`. -/
def QueueConfig.stamp (cfg : QueueConfig) (r : InternalRouting) : InternalRouting :=
  { r with
    requestQueueName := if r.requestQueueName = "" then cfg.queueName else r.requestQueueName
    queueID := if r.queueID = "" then cfg.queueID else r.queueID
    resultQueueName :=
      if !r.resultRoutingResolved && cfg.resultQueueName ≠ "" then cfg.resultQueueName
      else r.resultQueueName
    resultTTLSeconds := if r.resultRoutingResolved then r.resultTTLSeconds else cfg.resultTTLSeconds
    resultRoutingResolved := true
    labels := cfg.labels.foldl (fun labels l => Hash.hset labels l.1 l.2) r.labels }

/-- A request on its way to a worker; the pipeline adds headers and the URL. -/
def Request.embellish (ir : Request) (headers : List (String × String)) (url : String) : Message :=
  ⟨ir.message.id, ir.message.deadline, ir.message.payload, ir.message.metadata, ir.routing, headers,
    url⟩

/-- The request that `flushRetryBatch` encodes. -/
def requeued (kind : RequestKind) (msg : Message) (fallbackQueue : String) : Request :=
  let queue :=
    if msg.routing.requestQueueName = "" then fallbackQueue else msg.routing.requestQueueName
  ⟨kind, ⟨msg.id, msg.deadline, msg.payload, msg.metadata⟩,
    { msg.routing with requestQueueName := queue }⟩

/-- A call of `SendRequest`. -/
structure Sent where
  id : String
  token : String
  body : Bytes

/-- The calls of `SendRequest` along a path of a worker. -/
def sentAlong (msg : Message) (tr : List (Sigma Action.Reply)) : List Sent :=
  tr.filterMap fun e =>
    match e.1 with
    | .send _ _ payload => some ⟨msg.id, msg.routing.requestToken, payload⟩
    | _ => none

/-- The retries along a path of a worker. -/
def retriedAlong (tr : List (Sigma Action.Reply)) : List Message :=
  (AsyncWorker.puts tr).filterMap fun put =>
    match put with
    | .retry m => some m.msg
    | .result _ => none

/-! ### Steps -/

/-- Everything that holds a request or a payload.  Of the sorted sets and the claimed hash only
their members matter here. -/
structure Transport where
  submitted : List Submission
  /-- Texts that a producer is about to enqueue. -/
  submitting : List Wire
  pending : List Wire
  claimed : List Wire
  retry : List Wire
  /-- Texts that a retry mover has removed from the retry set. -/
  moving : List Wire
  /-- Claimed requests in polls, with their texts. -/
  ready : List (Wire × Request)
  /-- Requests in channels and workers. -/
  running : List (RequestKind × Message)
  /-- Requests in retry channels and flushes. -/
  retrying : List (RequestKind × Message)
  payloads : Hash String Bytes
  sent : List Sent

def Transport.initial : Transport := ⟨[], [], [], [], [], [], [], [], [], .empty, []⟩

/-- A request as a poll sees it: its text decoded, stamped, and with the labels of the gate. -/
def polled (cfg : QueueConfig) (labels : Hash String String) (text : Wire) : Request :=
  { text.unmarshal with routing := { cfg.stamp text.internal with labels := labels } }

/-- A text in which the script of the producer has stamped the sequence number. -/
def Wire.stamped (text : Wire) (seq : ℤ) : Wire :=
  { text with internal := { text.internal with enqueueSeq := seq } }

/-- One command of some process.  A process that writes a text may do so again, if it has not seen
the answer, so it keeps the text until it forgets it. -/
inductive Step (s : Transport) : Transport → Prop where
  /-- `SubmitRequest` accepts a request, and the payload is stored if it has a key. -/
  | submit {payloadKeys isNil : Bool} {kind : RequestKind} {message : RequestMessage}
    {requestQueue resultQueue correlationID token : String} {now : ℤ} {text : Wire}
    (htoken : IsToken token) (hfresh : ∀ sub ∈ s.submitted, sub.token ≠ token)
    (htext : submitRequest payloadKeys isNil
      ⟨kind, message, newRouting requestQueue resultQueue correlationID token⟩ now = some text) :
    Step s { s with
      submitted := ⟨message.id, token, payloadKeys, message.payload⟩ :: s.submitted
      submitting := text :: s.submitting
      payloads :=
        if payloadKeys then
          Hash.hset s.payloads (requestPayloadKey message.id token) message.payload
        else s.payloads }
  /-- The script of the producer stamps the sequence number and enqueues the text. -/
  | enqueue {text : Wire} (h : text ∈ s.submitting) (seq : ℤ) :
    Step s { s with pending := text.stamped seq :: s.pending }
  /-- `claimScript`, for a request that the gate has let through. -/
  | claim {text : Wire} {rest : List Wire} (h : s.pending.Perm (text :: rest))
    (hdeadline : 0 < text.data.deadline) (cfg : QueueConfig) (labels : Hash String String) :
    Step s { s with
      pending := rest
      claimed := text :: s.claimed
      ready := (text, polled cfg labels text) :: s.ready }
  /-- The request is handed to the pipeline. -/
  | dispatch {text : Wire} {ir : Request} {rest : List (Wire × Request)}
    (h : s.ready.Perm ((text, ir) :: rest)) (href : ir.routing.payloadRef = "")
    (headers : List (String × String)) (url : String) :
    Step s { s with ready := rest, running := (ir.kind, ir.embellish headers url) :: s.running }
  /-- `fetchPayloads` finds the payload, and the request is handed to the pipeline. -/
  | fetch {text : Wire} {ir : Request} {rest : List (Wire × Request)} {payload : Bytes}
    (h : s.ready.Perm ((text, ir) :: rest)) (href : ir.routing.payloadRef ≠ "")
    (hpayload : Hash.hget s.payloads ir.routing.payloadRef = some payload)
    (headers : List (String × String)) (url : String) :
    Step s { s with
      ready := rest
      running := (ir.kind, (ir.attachPayload payload).embellish headers url) :: s.running }
  /-- `releaseClaimScript`. -/
  | release {text : Wire} {ir : Request} {rest : List (Wire × Request)} {claimed : List Wire}
    (h : s.ready.Perm ((text, ir) :: rest)) (hclaimed : s.claimed.Perm (text :: claimed)) :
    Step s { s with ready := rest, claimed := claimed, pending := text :: s.pending }
  /-- `reclaimExpiredScript`. -/
  | reclaim {text : Wire} {claimed : List Wire} (h : s.claimed.Perm (text :: claimed)) :
    Step s { s with claimed := claimed, pending := text :: s.pending }
  /-- `ackResultScript`. -/
  | ack {text : Wire} {claimed : List Wire} (h : s.claimed.Perm (text :: claimed)) :
    Step s { s with
      claimed := claimed, payloads := Hash.hdel s.payloads text.internal.payloadRef }
  /-- A claim is dropped, or overwritten by a later claim of the same request. -/
  | dropClaim {text : Wire} {claimed : List Wire} (h : s.claimed.Perm (text :: claimed)) :
    Step s { s with claimed := claimed }
  /-- A key expires. -/
  | expire (ref : String) : Step s { s with payloads := Hash.hdel s.payloads ref }
  /-- A worker goes some way through `processMessage`, and no transform handles the message. -/
  | work {kind : RequestKind} {msg : Message} {rest : List (RequestKind × Message)}
    (h : s.running.Perm ((kind, msg) :: rest)) (w : Worker) {tr tr' : List (Sigma Action.Reply)}
    (hpath : (w.processMessage msg).Path (tr ++ tr') ())
    (hplain : AsyncWorker.Untransformed (tr ++ tr')) :
    Step s { s with
      running := rest
      retrying := (retriedAlong tr).map (fun m => (kind, m)) ++ s.retrying
      sent := sentAlong msg tr ++ s.sent }
  /-- A worker that stops puts a message on the retry channel. -/
  | drain {kind : RequestKind} {msg : Message} {rest : List (RequestKind × Message)}
    (h : s.running.Perm ((kind, msg) :: rest)) :
    Step s { s with running := rest, retrying := (kind, msg) :: s.retrying }
  /-- `flushRetryBatch`. -/
  | flush {kind : RequestKind} {msg : Message} (h : (kind, msg) ∈ s.retrying)
    {fallbackQueue : String} {text : Wire}
    (htext : (requeued kind msg fallbackQueue).encodeRequest = some text) :
    Step s { s with retry := text :: s.retry }
  /-- `retryMover` removes a text from the retry set. -/
  | takeRetry {text : Wire} {rest : List Wire} (h : s.retry.Perm (text :: rest)) :
    Step s { s with retry := rest, moving := text :: s.moving }
  /-- `retryMover` enqueues it. -/
  | enterRetry {text : Wire} (h : text ∈ s.moving) : Step s { s with pending := text :: s.pending }
  /-- `retryMover` puts it back. -/
  | returnRetry {text : Wire} (h : text ∈ s.moving) : Step s { s with retry := text :: s.retry }
  /-- Processes forget what they hold, because they are done with it or because they die. -/
  | forget {submitting moving : List Wire} {ready : List (Wire × Request)}
    {running retrying : List (RequestKind × Message)} (hsubmitting : submitting ⊆ s.submitting)
    (hmoving : moving ⊆ s.moving) (hready : ready ⊆ s.ready) (hrunning : running ⊆ s.running)
    (hretrying : retrying ⊆ s.retrying) :
    Step s { s with
      submitting := submitting, moving := moving, ready := ready, running := running
      retrying := retrying }

def Transport.Reachable (s : Transport) : Prop := Relation.ReflTransGen Step .initial s

/-! ### Copies of a submission -/

/-- The payload survives: it has a key of its own, or writing it as JSON does not change it. -/
def Submission.Exact (sub : Submission) : Prop :=
  sub.payload ≠ [] ∧ (sub.payloadKeys = true ∨ JsonText.compact sub.payload = some sub.payload)

/-- The request is a copy of a submission, with its payload, unless that is kept under a key. -/
def Copies (subs : List Submission) (ir : Request) : Prop :=
  ∃ sub ∈ subs, (sub.id = ir.message.id ∧ sub.token = ir.routing.requestToken ∧
    sub.payloadRef = ir.routing.payloadRef) ∧
    (ir.routing.payloadRef = "" → sub.Exact → ir.message.payload = sub.payload)

/-- The message is a copy of a submission, with its payload. -/
def Holds (subs : List Submission) (msg : Message) : Prop :=
  ∃ sub ∈ subs, (sub.id = msg.id ∧ sub.token = msg.routing.requestToken ∧
    sub.payloadRef = msg.routing.payloadRef) ∧ (sub.Exact → msg.payload = sub.payload)

/-- What is sent is the payload of a submission. -/
def Delivers (subs : List Submission) (e : Sent) : Prop :=
  ∃ sub ∈ subs, (sub.id = e.id ∧ sub.token = e.token) ∧ (sub.Exact → e.body = sub.payload)

section Copies

variable {subs : List Submission} {sub : Submission} {ir : Request} {msg : Message} {text : Wire}

lemma Copies.cons (h : Copies subs ir) (sub : Submission) : Copies (sub :: subs) ir := by
  obtain ⟨sub', hmem, hsub'⟩ := h
  exact ⟨sub', mem_cons_of_mem _ hmem, hsub'⟩

lemma Holds.cons (h : Holds subs msg) (sub : Submission) : Holds (sub :: subs) msg := by
  obtain ⟨sub', hmem, hsub'⟩ := h
  exact ⟨sub', mem_cons_of_mem _ hmem, hsub'⟩

lemma Delivers.cons {e : Sent} (h : Delivers subs e) (sub : Submission) :
    Delivers (sub :: subs) e := by
  obtain ⟨sub', hmem, hsub'⟩ := h
  exact ⟨sub', mem_cons_of_mem _ hmem, hsub'⟩

lemma requestPayloadKey_ne_empty (id token : String) : requestPayloadKey id token ≠ "" := by
  intro h
  have hchars := congrArg String.toList h
  unfold requestPayloadKey at hchars
  rw [String.toList_append, String.toList_append, String.toList_append] at hchars
  have hcolon : (":".toList) = [] := by
    simp only [append_assoc, String.toList_empty, append_eq_nil_iff] at hchars
    exact hchars.2.2.1
  exact absurd hcolon (by decide)

lemma token_eq_of_requestPayloadKey_eq {id id' token token' : String} (ht : IsToken token)
    (ht' : IsToken token') (h : requestPayloadKey id token = requestPayloadKey id' token') :
    token = token' := by
  have hchars := congrArg String.toList h
  unfold requestPayloadKey at hchars
  simp only [String.toList_append] at hchars
  have hlength : token.toList.length = token'.toList.length := by
    rw [String.length_toList, String.length_toList]
    exact ht.trans ht'.symm
  exact String.toList_inj.mp (append_inj_right' hchars hlength)

lemma Submission.Exact.compact (h : sub.Exact) (href : sub.payloadRef = "") :
    JsonText.compact sub.payload = some sub.payload := by
  rcases h.2 with hkeys | hcompact
  · unfold payloadRef at href
    rw [if_pos hkeys] at href
    exact absurd href (requestPayloadKey_ne_empty _ _)
  · exact hcompact

lemma marshal_spec (h : ir.marshal = some text) :
    text.data.id = ir.message.id ∧ text.internal = ir.routing ∧
      (ir.message.payload ≠ [] → JsonText.compact ir.message.payload = some ir.message.payload →
        text.data.payload = ir.message.payload) := by
  obtain ⟨data₁, h₁, h⟩ := Option.bind_eq_some_iff.mp h
  obtain ⟨data₂, h₂, h⟩ := Option.bind_eq_some_iff.mp h
  obtain ⟨data₃, h₃, h⟩ := Option.bind_eq_some_iff.mp h
  obtain ⟨raw₁, hraw₁, rfl⟩ := Option.map_eq_some_iff.mp h₁
  obtain ⟨raw₂, hraw₂, rfl⟩ := Option.map_eq_some_iff.mp h₂
  obtain ⟨raw₃, hraw₃, rfl⟩ := Option.map_eq_some_iff.mp h₃
  obtain rfl := Option.some.inj h
  refine ⟨rfl, rfl, fun hne hcompact => ?_⟩
  rw [marshalRaw, if_neg hne, hcompact] at hraw₁
  obtain rfl := Option.some.inj hraw₁
  rw [hcompact] at hraw₂
  obtain rfl := Option.some.inj hraw₂
  rw [hcompact] at hraw₃
  exact (Option.some.inj hraw₃).symm

lemma Copies.marshal (h : Copies subs ir) (htext : ir.marshal = some text) :
    Copies subs text.unmarshal := by
  obtain ⟨sub, hmem, ⟨hid, htoken, href⟩, hpayload⟩ := h
  obtain ⟨hid', hrouting, hpayload'⟩ := marshal_spec htext
  refine ⟨sub, hmem, ⟨hid.trans hid'.symm, ?_, ?_⟩, fun hinline hexact => ?_⟩
  · rw [htoken, ← hrouting]
    rfl
  · rw [href, ← hrouting]
    rfl
  · have hinline' : ir.routing.payloadRef = "" := hrouting ▸ hinline
    have hsame := hpayload hinline' hexact
    have hcompact := hexact.compact (href.trans hinline')
    rw [← hsame] at hcompact
    have hne : ir.message.payload ≠ [] := hsame ▸ hexact.1
    exact (hpayload' hne hcompact).trans hsame

lemma Copies.split (h : Copies subs ir) (href : ir.routing.payloadRef ≠ "") {payload : Bytes}
    (htext : ir.splitPayload = some (text, payload)) : Copies subs text.unmarshal := by
  obtain ⟨envelope, henvelope, heq⟩ := Option.map_eq_some_iff.mp htext
  obtain ⟨rfl, -⟩ := Prod.mk.inj heq
  obtain ⟨sub, hmem, hnames, -⟩ := h
  have hcopy : Copies subs (ir.attachPayload []) :=
    ⟨sub, hmem, hnames, fun hinline => absurd hinline href⟩
  exact hcopy.marshal henvelope

lemma Copies.encodeRequest (h : Copies subs ir) (htext : ir.encodeRequest = some text) :
    Copies subs text.unmarshal := by
  unfold Request.encodeRequest at htext
  split at htext
  · exact h.marshal htext
  next href =>
    obtain ⟨⟨text', payload⟩, hsplit, rfl⟩ := Option.map_eq_some_iff.mp htext
    exact h.split href hsplit

lemma Holds.requeued (h : Holds subs msg) (kind : RequestKind) (fallbackQueue : String) :
    Copies subs (requeued kind msg fallbackQueue) := by
  obtain ⟨sub, hmem, hnames, hpayload⟩ := h
  exact ⟨sub, hmem, hnames, fun _ => hpayload⟩

lemma Holds.repeats (h : Holds subs msg) {labels : Hash String String} {msg' : Message}
    (hmsg' : (msg.relabelled labels).Repeats msg') : Holds subs msg' := by
  obtain ⟨sub, hmem, hnames, hpayload⟩ := h
  rcases hmsg' with rfl | rfl
  · exact ⟨sub, hmem, hnames, hpayload⟩
  · exact ⟨sub, hmem, hnames, hpayload⟩

lemma Copies.polled (h : Copies subs text.unmarshal) (cfg : QueueConfig)
    (labels : Hash String String) : Copies subs (polled cfg labels text) := by
  obtain ⟨sub, hmem, hnames, hpayload⟩ := h
  exact ⟨sub, hmem, hnames, hpayload⟩

lemma Copies.dispatch (h : Copies subs ir) (href : ir.routing.payloadRef = "")
    (headers : List (String × String)) (url : String) :
    Holds subs (ir.embellish headers url) := by
  obtain ⟨sub, hmem, hnames, hpayload⟩ := h
  exact ⟨sub, hmem, hnames, hpayload href⟩

lemma Holds.work (h : Holds subs msg) {w : Worker} {tr tr' : List (Sigma Action.Reply)}
    (hpath : (w.processMessage msg).Path (tr ++ tr') ())
    (hplain : AsyncWorker.Untransformed (tr ++ tr')) :
    (∀ msg' ∈ retriedAlong tr, Holds subs msg') ∧ ∀ e ∈ sentAlong msg tr, Delivers subs e := by
  constructor
  · intro msg' hmsg'
    obtain ⟨put, hput, heq⟩ := mem_filterMap.mp hmsg'
    cases put with
    | result r => cases heq
    | retry m =>
      obtain rfl : m.msg = msg' := Option.some.inj heq
      have hput' : .retry m ∈ AsyncWorker.puts (tr ++ tr') := by
        unfold AsyncWorker.puts
        rw [filterMap_append]
        exact mem_append_left _ hput
      obtain ⟨labels, hrepeats⟩ := AsyncWorker.processMessage_repeats hpath hput'
      exact h.repeats hrepeats
  · intro e he
    obtain ⟨⟨a, reply⟩, hmem, heq⟩ := mem_filterMap.mp he
    cases a with
    | send url headers payload =>
      obtain rfl : (⟨msg.id, msg.routing.requestToken, payload⟩ : Sent) = e := Option.some.inj heq
      obtain rfl := AsyncWorker.processMessage_sends_payload hpath hplain
        (mem_append_left _ hmem)
      obtain ⟨sub, hsub, ⟨hid, htoken, -⟩, hpayload⟩ := h
      refine ⟨sub, hsub, ⟨hid, htoken⟩, fun hexact => ?_⟩
      have hsame := hpayload hexact
      have hne : msg.payload ≠ [] := hsame ▸ hexact.1
      rw [Message.payloadBytes, if_neg hne]
      exact hsame
    | _ => cases heq

end Copies

/-! ### Runs -/

def Transport.texts (s : Transport) : List Wire :=
  s.submitting ++ s.pending ++ s.claimed ++ s.retry ++ s.moving ++ s.ready.map Prod.fst

def Transport.messages (s : Transport) : List Message :=
  s.running.map Prod.snd ++ s.retrying.map Prod.snd

/-- Everything is a copy of a submission. -/
structure Sound (s : Transport) : Prop where
  tokens : ∀ sub ∈ s.submitted, IsToken sub.token
  distinct : (s.submitted.map Submission.token).Nodup
  texts : ∀ text ∈ s.texts, Copies s.submitted text.unmarshal
  ready : ∀ r ∈ s.ready, Copies s.submitted r.2
  messages : ∀ msg ∈ s.messages, Holds s.submitted msg
  payloads : ∀ ref payload, Hash.hget s.payloads ref = some payload →
    ∃ sub ∈ s.submitted, sub.payloadRef = ref ∧ sub.payload = payload
  sent : ∀ e ∈ s.sent, Delivers s.submitted e

/-- A step after which all that is new are copies. -/
structure Adds (s s' : Transport) : Prop where
  submitted : s'.submitted = s.submitted
  texts : ∀ text ∈ s'.texts, text ∈ s.texts ∨ Copies s.submitted text.unmarshal
  ready : ∀ r ∈ s'.ready, r ∈ s.ready ∨ Copies s.submitted r.2
  messages : ∀ msg ∈ s'.messages, msg ∈ s.messages ∨ Holds s.submitted msg
  payloads : ∀ ref payload, Hash.hget s'.payloads ref = some payload →
    Hash.hget s.payloads ref = some payload
  sent : ∀ e ∈ s'.sent, e ∈ s.sent ∨ Delivers s.submitted e

section Runs

variable {s s' : Transport}

lemma Sound.adds (h : Sound s) (hadds : Adds s s') : Sound s' := by
  obtain ⟨hsubs, htexts, hready, hmessages, hpayloads, hsent⟩ := hadds
  refine ⟨?_, ?_, ?_, ?_, ?_, ?_, ?_⟩
  · exact hsubs ▸ h.tokens
  · exact hsubs ▸ h.distinct
  · exact fun text ht => hsubs ▸ (htexts text ht).elim (h.texts text) id
  · exact fun r hr => hsubs ▸ (hready r hr).elim (h.ready r) id
  · exact fun msg hmsg => hsubs ▸ (hmessages msg hmsg).elim (h.messages msg) id
  · exact fun ref payload hp => hsubs ▸ h.payloads ref payload (hpayloads ref payload hp)
  · exact fun e he => hsubs ▸ (hsent e he).elim (h.sent e) id

lemma Sound.eq_of_token (h : Sound s) {sub sub' : Submission} (hsub : sub ∈ s.submitted)
    (hsub' : sub' ∈ s.submitted) (htoken : sub.token = sub'.token) : sub = sub' :=
  inj_on_of_nodup_map h.distinct hsub hsub' htoken

lemma Sound.fetch (h : Sound s) {ir : Request} (hir : Copies s.submitted ir)
    (href : ir.routing.payloadRef ≠ "") {payload : Bytes}
    (hpayload : Hash.hget s.payloads ir.routing.payloadRef = some payload)
    (headers : List (String × String)) (url : String) :
    Holds s.submitted ((ir.attachPayload payload).embellish headers url) := by
  obtain ⟨sub, hsub, hnames, -⟩ := hir
  obtain ⟨sub', hsub', href', hsame⟩ := h.payloads _ _ hpayload
  refine ⟨sub, hsub, hnames, fun _ => ?_⟩
  have hrefs : sub.payloadRef = sub'.payloadRef := hnames.2.2.trans href'.symm
  have hne : sub.payloadRef ≠ "" := hnames.2.2 ▸ href
  have hne' : sub'.payloadRef ≠ "" := hrefs ▸ hne
  have htoken : sub.token = sub'.token := by
    unfold Submission.payloadRef at hrefs hne hne'
    have hkeys : sub.payloadKeys = true := by
      by_contra hkeys
      exact hne (if_neg hkeys)
    have hkeys' : sub'.payloadKeys = true := by
      by_contra hkeys'
      exact hne' (if_neg hkeys')
    rw [if_pos hkeys, if_pos hkeys'] at hrefs
    exact token_eq_of_requestPayloadKey_eq (h.tokens sub hsub) (h.tokens sub' hsub') hrefs
  rw [h.eq_of_token hsub hsub' htoken]
  exact hsame.symm

lemma copies_submitted {payloadKeys isNil : Bool} {kind : RequestKind} {message : RequestMessage}
    {requestQueue resultQueue correlationID token : String} {now : ℤ} {text : Wire}
    (htext : submitRequest payloadKeys isNil
      ⟨kind, message, newRouting requestQueue resultQueue correlationID token⟩ now = some text)
    (subs : List Submission) :
    Copies (⟨message.id, token, payloadKeys, message.payload⟩ :: subs) text.unmarshal := by
  unfold submitRequest at htext
  split at htext
  · cases htext
  split at htext
  next hkeys =>
    obtain ⟨⟨text', payload⟩, hsplit, rfl⟩ := Option.map_eq_some_iff.mp htext
    have hne := requestPayloadKey_ne_empty message.id token
    have hcopy : Copies (⟨message.id, token, payloadKeys, message.payload⟩ :: subs)
        ⟨kind, message, { newRouting requestQueue resultQueue correlationID token with
          payloadRef := requestPayloadKey message.id token }⟩ := by
      refine ⟨_, mem_cons_self, ⟨rfl, rfl, ?_⟩, fun hinline => absurd hinline hne⟩
      unfold Submission.payloadRef
      rw [if_pos hkeys]
    exact hcopy.split hne hsplit
  next hkeys =>
    have hcopy : Copies (⟨message.id, token, payloadKeys, message.payload⟩ :: subs)
        ⟨kind, message, newRouting requestQueue resultQueue correlationID token⟩ := by
      refine ⟨_, mem_cons_self, ⟨rfl, rfl, ?_⟩, fun _ _ => rfl⟩
      unfold Submission.payloadRef
      rw [if_neg hkeys]
      rfl
    exact hcopy.marshal htext

lemma mem_texts {text : Wire} : text ∈ s.texts ↔ text ∈ s.submitting ∨ text ∈ s.pending ∨
    text ∈ s.claimed ∨ text ∈ s.retry ∨ text ∈ s.moving ∨ text ∈ s.ready.map Prod.fst := by
  simp only [Transport.texts, mem_append, or_assoc]

lemma mem_messages {msg : Message} :
    msg ∈ s.messages ↔ msg ∈ s.running.map Prod.snd ∨ msg ∈ s.retrying.map Prod.snd := by
  simp only [Transport.messages, mem_append]

lemma Adds.of_texts (hsubs : s'.submitted = s.submitted)
    (htexts : ∀ text ∈ s'.texts, text ∈ s.texts ∨ Copies s.submitted text.unmarshal)
    (hready : s'.ready ⊆ s.ready) (hmessages : s'.messages ⊆ s.messages)
    (hpayloads : ∀ ref payload, Hash.hget s'.payloads ref = some payload →
      Hash.hget s.payloads ref = some payload) (hsent : s'.sent = s.sent) : Adds s s' :=
  ⟨hsubs, htexts, fun _ hr => .inl (hready hr), fun _ hmsg => .inl (hmessages hmsg), hpayloads,
    fun _ he => .inl (hsent ▸ he)⟩

lemma Adds.of_messages (hsubs : s'.submitted = s.submitted) (htexts : s'.texts ⊆ s.texts)
    (hready : s'.ready ⊆ s.ready)
    (hmessages : ∀ msg ∈ s'.messages, msg ∈ s.messages ∨ Holds s.submitted msg)
    (hpayloads : s'.payloads = s.payloads)
    (hsent : ∀ e ∈ s'.sent, e ∈ s.sent ∨ Delivers s.submitted e) : Adds s s' :=
  ⟨hsubs, fun _ ht => .inl (htexts ht), fun _ hr => .inl (hready hr), hmessages,
    fun _ _ hp => hpayloads ▸ hp, hsent⟩

lemma Sound.submit (h : Sound s) {sub : Submission} {text : Wire} (htoken : IsToken sub.token)
    (hfresh : ∀ sub' ∈ s.submitted, sub'.token ≠ sub.token)
    (htext : Copies (sub :: s.submitted) text.unmarshal) :
    Sound { s with
      submitted := sub :: s.submitted
      submitting := text :: s.submitting
      payloads :=
        if sub.payloadKeys then
          Hash.hset s.payloads (requestPayloadKey sub.id sub.token) sub.payload
        else s.payloads } := by
  refine ⟨?_, ?_, fun t ht => ?_, fun r hr => (h.ready r hr).cons sub,
    fun msg hmsg => (h.messages msg hmsg).cons sub, fun ref payload hpayload => ?_,
    fun e he => (h.sent e he).cons sub⟩
  · intro sub' hsub'
    rcases mem_cons.mp hsub' with rfl | hsub'
    · exact htoken
    · exact h.tokens sub' hsub'
  · refine nodup_cons.mpr ⟨fun hmem => ?_, h.distinct⟩
    obtain ⟨sub', hsub', heq⟩ := mem_map.mp hmem
    exact hfresh sub' hsub' heq
  · rcases mem_cons.mp ht with rfl | ht
    · exact htext
    · exact (h.texts t ht).cons sub
  · have hold : hget s.payloads ref = some payload →
        ∃ sub' ∈ sub :: s.submitted, sub'.payloadRef = ref ∧ sub'.payload = payload := by
      intro hp
      obtain ⟨sub', hsub', hsame⟩ := h.payloads ref payload hp
      exact ⟨sub', mem_cons_of_mem _ hsub', hsame⟩
    dsimp only at hpayload
    split at hpayload
    next hkeys =>
      rw [hget_hset] at hpayload
      split at hpayload
      next href =>
        refine ⟨sub, mem_cons_self, ?_, Option.some.inj hpayload⟩
        rw [href, Submission.payloadRef, if_pos hkeys]
      · exact hold hpayload
    · exact hold hpayload

lemma Sound.step (h : Sound s) (hstep : Step s s') : Sound s' := by
  cases hstep with
  | submit htoken hfresh htext => exact h.submit htoken hfresh (copies_submitted htext _)
  | @enqueue text hmem seq =>
    have hnew : Copies s.submitted (text.stamped seq).unmarshal :=
      h.texts text (mem_texts.mpr (.inl hmem))
    refine h.adds (.of_texts rfl (fun t ht => ?_) (fun _ => id) (fun _ => id) (fun _ _ => id) rfl)
    grind [mem_texts]
  | @claim text rest hperm hdeadline cfg labels =>
    have hmem : ∀ t, t ∈ s.pending ↔ t ∈ text :: rest := fun t => hperm.mem_iff
    have htext : Copies s.submitted text.unmarshal := h.texts text (by grind [mem_texts])
    refine h.adds ⟨rfl, fun t ht => ?_, fun r hr => ?_, fun _ => .inl, fun _ _ => id,
      fun _ => .inl⟩
    · grind [mem_texts]
    · rcases mem_cons.mp hr with rfl | hr
      · exact .inr (htext.polled cfg labels)
      · exact .inl hr
  | @dispatch text ir rest hperm href headers url =>
    have hmem : ∀ r, r ∈ s.ready ↔ r ∈ (text, ir) :: rest := fun r => hperm.mem_iff
    have hnew : Holds s.submitted (ir.embellish headers url) :=
      (h.ready (text, ir) (by grind)).dispatch href headers url
    refine h.adds (.of_messages rfl (fun t ht => ?_) (fun r hr => ?_) (fun msg hmsg => ?_) rfl
      fun _ => .inl)
    · grind [mem_texts]
    · grind
    · grind [mem_messages]
  | @fetch text ir rest payload hperm href hpayload headers url =>
    have hmem : ∀ r, r ∈ s.ready ↔ r ∈ (text, ir) :: rest := fun r => hperm.mem_iff
    have hnew : Holds s.submitted ((ir.attachPayload payload).embellish headers url) :=
      h.fetch (h.ready (text, ir) (by grind)) href hpayload headers url
    refine h.adds (.of_messages rfl (fun t ht => ?_) (fun r hr => ?_) (fun msg hmsg => ?_) rfl
      fun _ => .inl)
    · grind [mem_texts]
    · grind
    · grind [mem_messages]
  | @release text ir rest claimed hperm hclaimed =>
    have hready : ∀ r, r ∈ s.ready ↔ r ∈ (text, ir) :: rest := fun r => hperm.mem_iff
    have hmem : ∀ t, t ∈ s.claimed ↔ t ∈ text :: claimed := fun t => hclaimed.mem_iff
    refine h.adds (.of_texts rfl (fun t ht => .inl ?_) (fun r hr => ?_) (fun _ => id)
      (fun _ _ => id) rfl)
    · grind [mem_texts]
    · grind
  | @reclaim text claimed hclaimed | @dropClaim text claimed hclaimed =>
    have hmem : ∀ t, t ∈ s.claimed ↔ t ∈ text :: claimed := fun t => hclaimed.mem_iff
    refine h.adds (.of_texts rfl (fun t ht => .inl ?_) (fun _ => id) (fun _ => id)
      (fun _ _ => id) rfl)
    grind [mem_texts]
  | @ack text claimed hclaimed =>
    have hmem : ∀ t, t ∈ s.claimed ↔ t ∈ text :: claimed := fun t => hclaimed.mem_iff
    refine h.adds (.of_texts rfl (fun t ht => .inl ?_) (fun _ => id) (fun _ => id)
      (fun _ _ hp => (hget_of_hdel hp).2) rfl)
    grind [mem_texts]
  | expire ref =>
    exact h.adds (.of_texts rfl (fun t => .inl) (fun _ => id) (fun _ => id)
      (fun _ _ hp => (hget_of_hdel hp).2) rfl)
  | @work kind msg rest hperm w tr tr' hpath hplain =>
    have hmem : ∀ r, r ∈ s.running ↔ r ∈ (kind, msg) :: rest := fun r => hperm.mem_iff
    have hmsg : Holds s.submitted msg := h.messages msg (by grind [mem_messages])
    obtain ⟨hretried, hsent⟩ := hmsg.work hpath hplain
    refine h.adds (.of_messages rfl (fun _ => id) (fun _ => id) (fun m hm => ?_) rfl
      fun e he => ?_)
    · grind [mem_messages]
    · rcases mem_append.mp he with he | he
      · exact .inr (hsent e he)
      · exact .inl he
  | @drain kind msg rest hperm =>
    have hmem : ∀ r, r ∈ s.running ↔ r ∈ (kind, msg) :: rest := fun r => hperm.mem_iff
    refine h.adds (.of_messages rfl (fun _ => id) (fun _ => id) (fun m hm => .inl ?_) rfl
      fun _ => .inl)
    grind [mem_messages]
  | @flush kind msg hmem fallbackQueue text htext =>
    have hmsg : Holds s.submitted msg := h.messages msg (by grind [mem_messages])
    have hnew : Copies s.submitted text.unmarshal :=
      (hmsg.requeued kind fallbackQueue).encodeRequest htext
    refine h.adds (.of_texts rfl (fun t ht => ?_) (fun _ => id) (fun _ => id) (fun _ _ => id) rfl)
    grind [mem_texts]
  | @takeRetry text rest hperm =>
    have hmem : ∀ t, t ∈ s.retry ↔ t ∈ text :: rest := fun t => hperm.mem_iff
    refine h.adds (.of_texts rfl (fun t ht => .inl ?_) (fun _ => id) (fun _ => id)
      (fun _ _ => id) rfl)
    grind [mem_texts]
  | @enterRetry text hmem | @returnRetry text hmem =>
    refine h.adds (.of_texts rfl (fun t ht => .inl ?_) (fun _ => id) (fun _ => id)
      (fun _ _ => id) rfl)
    grind [mem_texts]
  | forget hsubmitting hmoving hready hrunning hretrying =>
    refine h.adds (.of_texts rfl (fun t ht => .inl ?_) hready (fun m hm => ?_) (fun _ _ => id)
      rfl)
    · rcases mem_texts.mp ht with ht | ht | ht | ht | ht | ht
      · exact mem_texts.mpr (.inl (hsubmitting ht))
      · exact mem_texts.mpr (by simp [ht])
      · exact mem_texts.mpr (by simp [ht])
      · exact mem_texts.mpr (by simp [ht])
      · exact mem_texts.mpr (by simp [hmoving ht])
      · exact mem_texts.mpr (by simp [map_subset Prod.fst hready ht])
    · rcases mem_messages.mp hm with hm | hm
      · exact mem_messages.mpr (.inl (map_subset Prod.snd hrunning hm))
      · exact mem_messages.mpr (.inr (map_subset Prod.snd hretrying hm))

lemma Transport.Reachable.sound (h : s.Reachable) : Sound s := by
  induction h with
  | refl =>
    refine ⟨?_, nodup_nil, ?_, ?_, ?_, ?_, ?_⟩
    · exact fun _ hsub => (not_mem_nil hsub).elim
    · exact fun _ ht => (not_mem_nil ht).elim
    · exact fun _ hr => (not_mem_nil hr).elim
    · exact fun _ hmsg => (not_mem_nil hmsg).elim
    · exact nofun
    · exact fun _ he => (not_mem_nil he).elim
  | tail _ hstep ih => exact ih.step hstep

/-- **Payloads are sent as they were submitted.**  Whatever is submitted, dispatched, released,
reclaimed and retried, and however often: the bytes that are passed to `SendRequest` for a request
are the bytes of its payload, if the payload was stored under a key of its own or if compacting and
escaping it does not change it. -/
theorem payload_bytes_preserved (s : Transport) (h : s.Reachable) (e : Sent) (he : e ∈ s.sent) :
    ∃ sub ∈ s.submitted, (sub.id = e.id ∧ sub.token = e.token) ∧
      (∀ sub' ∈ s.submitted, sub'.token = e.token → sub' = sub) ∧
      (sub.payload ≠ [] →
        sub.payloadKeys = true ∨ JsonText.compact sub.payload = some sub.payload →
        e.body = sub.payload) := by
  obtain ⟨sub, hsub, hnames, hbody⟩ := h.sound.sent e he
  refine ⟨sub, hsub, hnames, fun sub' hsub' htoken => ?_, fun hne hexact => hbody ⟨hne, hexact⟩⟩
  exact h.sound.eq_of_token hsub' hsub (htoken.trans hnames.2.symm)

end Runs

/-! ### A request that is submitted and sent -/

def sampleToken : String := "0123456789abcdef0123456789abcdef"

/-- A request with a deadline at 100 seconds. -/
def sampleMessage (payload : Bytes) : RequestMessage := ⟨"m", 100, payload, .empty⟩

/-- Its text, if its payload is written like this. -/
def sampleText (payload : Bytes) : Wire :=
  ⟨newRouting "in" "out" "" sampleToken, .plain, sampleMessage payload⟩

def sampleConfig : QueueConfig := ⟨"in", "q", "out", 0, []⟩

/-- The request on its way to a worker. -/
def sampleDelivery (payload : Bytes) : Message :=
  (polled sampleConfig .empty ((sampleText payload).stamped 1)).embellish [] "/v1"

def sampleWorker : Worker := ⟨5 * AsyncWorker.second, 0, false, none, fun _ => ⟨1, .blocking⟩, id⟩

/-- What the worker does with the request. -/
def samplePath (payload : Bytes) : List (Sigma Action.Reply) :=
  let msg := sampleDelivery payload
  [⟨.now, (0 : ℤ)⟩, ⟨.now, (0 : ℤ)⟩, ⟨.validate msg.payloadBytes .empty 100, none⟩,
    ⟨.now, (0 : ℤ)⟩, ⟨.now, (0 : ℤ)⟩, ⟨.transform msg.payloadBytes .empty, .ok none⟩,
    ⟨.now, (0 : ℤ)⟩, ⟨.send "/v1" [] msg.payloadBytes, ⟨.ok ⟨200, ""⟩, false⟩⟩,
    ⟨.offerResult (AsyncWorker.newHTTPResult msg ⟨200, ""⟩), true⟩]

lemma samplePath_path (payload : Bytes) :
    (sampleWorker.processMessage (sampleDelivery payload)).Path (samplePath payload) () :=
  .act _ (.act _ (.act _ (.act _ (.act _ (.act _ (.act _ (.act _ (.act _ (.done _)))))))))

lemma sampleRun (payload text : Bytes) (htext : submitRequest false false
      ⟨.plain, sampleMessage payload, newRouting "in" "out" "" sampleToken⟩ 0 =
        some (sampleText text)) (hne : text ≠ []) :
    ∃ s : Transport, s.Reachable ∧ ⟨"m", sampleToken, text⟩ ∈ s.sent ∧
      s.submitted = [⟨"m", sampleToken, false, payload⟩] := by
  have hplain : AsyncWorker.Untransformed (samplePath text ++ []) := by
    intro e he
    simp only [samplePath, append_nil, mem_cons, not_mem_nil, or_false] at he
    rcases he with rfl | rfl | rfl | rfl | rfl | rfl | rfl | rfl | rfl <;> rfl
  have hpath : (sampleWorker.processMessage (sampleDelivery text)).Path
      (samplePath text ++ []) () := by
    rw [append_nil]
    exact samplePath_path text
  have hbody : (sampleDelivery text).payloadBytes = text := if_neg hne
  have htoken : IsToken sampleToken := by
    unfold IsToken
    decide
  have hdeadline : 0 < ((sampleText text).stamped 1).data.deadline := show (0 : ℤ) < 100 by decide
  have hsent : ⟨"m", sampleToken, text⟩ ∈ sentAlong (sampleDelivery text) (samplePath text) := by
    have heq : sentAlong (sampleDelivery text) (samplePath text) =
        [⟨"m", sampleToken, (sampleDelivery text).payloadBytes⟩] := rfl
    rw [heq, hbody]
    exact mem_cons_self
  have h₁ : Transport.Reachable _ := Relation.ReflTransGen.single
    (Step.submit htoken (fun _ hsub => (not_mem_nil hsub).elim) htext)
  have h₂ := h₁.tail (Step.enqueue mem_cons_self 1)
  have h₃ := h₂.tail (Step.claim (List.Perm.refl _) hdeadline sampleConfig .empty)
  have h₄ := h₃.tail (Step.dispatch (List.Perm.refl _) rfl [] "/v1")
  have h₅ := h₄.tail (Step.work (List.Perm.refl _) sampleWorker hpath hplain)
  exact ⟨_, h₅, mem_append_left _ hsent, rfl⟩

/-- A payload that is already compact. -/
def compactPayload : Bytes := [JsonText.openBrace, JsonText.closeBrace]

/-- It is sent as it was submitted. -/
theorem compactPayload_preserved : ∃ s : Transport, s.Reachable ∧ ∃ e ∈ s.sent,
    e.body = compactPayload ∧ s.submitted = [⟨"m", sampleToken, false, compactPayload⟩] := by
  obtain ⟨s, hs, hsent, hsubs⟩ := sampleRun compactPayload compactPayload (by rfl) (by decide)
  obtain ⟨sub, hsub, -, -, hbody⟩ := payload_bytes_preserved s hs _ hsent
  rw [hsubs, mem_singleton] at hsub
  subst hsub
  exact ⟨s, hs, _, hsent, hbody (by decide) (.inr (by decide +kernel)), hsubs⟩

/-- An object with a blank and a character that is escaped. -/
def loosePayload : Bytes :=
  [JsonText.openBrace, JsonText.quote, JsonText.byte 'a', JsonText.quote, JsonText.byte ':', 0x20,
    JsonText.quote, JsonText.byte '<', JsonText.quote, JsonText.closeBrace]

/-- What `encoding/json` makes of it. -/
def looseText : Bytes :=
  [JsonText.openBrace, JsonText.quote, JsonText.byte 'a', JsonText.quote, JsonText.byte ':',
    JsonText.quote, JsonText.backslash] ++ JsonText.bytes "u003c" ++
    [JsonText.quote, JsonText.closeBrace]

/-- The payload is valid, it is submitted without a key, and other bytes are sent. -/
theorem loosePayload_rewritten : JsonText.valid loosePayload = true ∧
    acceptsPayload false loosePayload = true ∧ ∃ s : Transport, s.Reachable ∧
      s.submitted = [⟨"m", sampleToken, false, loosePayload⟩] ∧
      ∃ e ∈ s.sent, e.id = "m" ∧ e.token = sampleToken ∧ e.body = looseText ∧
        e.body ≠ loosePayload := by
  refine ⟨by decide +kernel, by decide +kernel, ?_⟩
  obtain ⟨s, hs, hsent, hsubs⟩ := sampleRun loosePayload looseText (by rfl) (by decide)
  exact ⟨s, hs, hsubs, _, hsent, rfl, rfl, rfl, by decide⟩

end LlmdAsync.Redis.Payload
