import LlmdAsync.Foundation.Hash
import LlmdAsync.Foundation.Paths

/-!
# Gates

`pipeline/gate.go` and the gates of `pkg/async/inference/flowcontrol`, as `CreateGate` combines
them: leaves, `composite`, `wait-on-refuse` and `tier-priority-admission`, nested to any depth.
`Gate.apply` is the code of `Apply`.  Its actions are those on the state that calls share: budgets,
scripts, quota stores, and the semaphores and counters of local gates.

The functions that `Apply` appends to `releases` each give back one reservation, so the list is a
list of reservations, and running a function is `Hold.release`.

Metrics are left out.
-/

namespace LlmdAsync.FlowControl

/-! ### Verdicts and requests -/

/-- `VerdictAction`; `proceed` is `ActionContinue`. -/
inductive VerdictAction where
  | proceed
  | drop
  | refuse
  | wait
deriving DecidableEq, Repr

/-- The result that a gate gives to a request it drops, without the routing. -/
structure DropResult where
  id : String
  payload : String
deriving DecidableEq, Repr

/-- `Verdict`. -/
structure Verdict where
  action : VerdictAction
  result : Option DropResult
  reason : String
deriving DecidableEq, Repr

namespace Verdict

/-- `Continue`. -/
def proceed : Verdict := ⟨.proceed, none, ""⟩

/-- `Drop`. -/
def drop (result : Option DropResult) : Verdict := ⟨.drop, result, ""⟩

/-- `Refuse`. -/
def refuse : Verdict := ⟨.refuse, none, ""⟩

/-- `Wait`. -/
def wait : Verdict := ⟨.wait, none, ""⟩

/-- `WithReason`. -/
def withReason (v : Verdict) (reason : String) : Verdict := { v with reason := reason }

end Verdict

/-- What gates look at of an `InternalRequest`. -/
structure GateRequest where
  id : String
  metadata : Hash String String
  labels : Hash String String

/-- `LabelClassification`. -/
def labelClassification : String := "classification"

/-- `ClassificationReserved`. -/
def classificationReserved : String := "reserved"

/-- `ClassificationOverflow`. -/
def classificationOverflow : String := "overflow"

/-- `TierInteractive`. -/
def tierInteractive : String := "interactive"

/-- `ReasonQuotaExhausted`. -/
def reasonQuotaExhausted : String := "quota_exhausted"

namespace GateRequest

/-- `SetClassification` of a classification that is not empty. -/
def setClassification (req : GateRequest) (c : String) : GateRequest :=
  { req with labels := Hash.hset req.labels labelClassification c }

/-- `GetClassification`. -/
def getClassification (req : GateRequest) : String :=
  (Hash.hget req.labels labelClassification).getD ""

end GateRequest

/-! ### Reservations and actions -/

/-- What a reservation is on. -/
inductive Resource where
  /-- A place in the semaphore of a local gate in blocking mode. -/
  | sem (gate : ℕ)
  /-- A place in the count of a local gate in classifying mode. -/
  | entry (gate : ℕ)
  /-- A concurrency slot of a quota store. -/
  | slot (store : ℕ) (key : String)
deriving DecidableEq, Repr

/-- A reservation. -/
structure Hold where
  id : ℕ
  resource : Resource
deriving DecidableEq, Repr

inductive GateAction where
  /-- `Budget` of a leaf. -/
  | budget (source : ℕ)
  /-- The script of a leased-rate gate. -/
  | leasedRate (gate : ℕ)
  /-- `AcquireSlot`. -/
  | acquireSlot (store : ℕ) (key : String) (limit : ℤ)
  /-- `Admit`. -/
  | admitRate (store : ℕ) (key : String) (limit window : ℤ)
  /-- The function that `AcquireSlot` has returned. -/
  | releaseSlot (h : Hold)
  /-- Send to the semaphore of a local gate, or give up because the context has ended. -/
  | semSend (gate : ℕ)
  /-- Receive from the semaphore. -/
  | semReceive (h : Hold)
  /-- Add to `inFlight`, in blocking mode. -/
  | count (gate : ℕ) (d : ℤ)
  /-- Compare `inFlight` with the limit and add to it, in classifying mode. -/
  | tryEnter (gate : ℕ)
  /-- Subtract from `inFlight`, in classifying mode. -/
  | leave (h : Hold)
deriving DecidableEq

@[reducible] def GateAction.Reply : GateAction → Type
  | .budget _ => ℚ
  -- Errors and answers that cannot be read are `none`.
  | .leasedRate _ => Option Bool
  -- An error, or the new reservation, if there is one.
  | .acquireSlot .. => Except String (Option ℕ)
  | .admitRate .. => Except String Bool
  | .semSend _ => Except String ℕ
  | .tryEnter _ => Option ℕ
  | _ => Unit

abbrev GateCode (α : Type) := Prog GateAction GateAction.Reply α

def call (a : GateAction) : GateCode a.Reply := Prog.perform a

/-- The function that gives a reservation back. -/
def Hold.release (h : Hold) : GateCode Unit :=
  match h.resource with
  | .sem gate => do
    call (.semReceive h)
    call (.count gate (-1))
  | .entry _ => call (.leave h)
  | .slot .. => call (.releaseSlot h)

/-- `ReleaseGateReleases` of a list that is already reversed. -/
def releaseAll : List Hold → GateCode Unit
  | [] => pure ()
  | h :: hs => do
    h.release
    releaseAll hs

/-! ### Leaves -/

/-- What `Apply` returns: the verdict or an error, and what the request and `releases` are then. -/
structure GateReturn where
  verdict : Except String Verdict
  req : GateRequest
  releases : List Hold

/-- `GatingMode`. -/
inductive GatingMode where
  | blocking
  | classifying
deriving DecidableEq, Repr

/-- `QuotaMode`. -/
inductive QuotaMode where
  | rateLimit
  | concurrency
deriving DecidableEq, Repr

/-- `QuotaGate`; the window is in nanoseconds. -/
structure QuotaGate where
  store : ℕ
  attr : String
  mode : QuotaMode
  gatingMode : GatingMode
  limit : ℤ
  window : ℤ
  keyPrefix : String
deriving DecidableEq, Repr

/-- `LocalConcurrencyGate`. -/
structure LocalGate where
  limit : ℤ
  gatingMode : GatingMode
deriving DecidableEq, Repr

/-- `Apply` of `RedisDispatchGate`, `MetricDispatchGate` and `DispatchGateFunc`. -/
def applyBudget (source : ℕ) (req : GateRequest) (rel : List Hold) : GateCode GateReturn := do
  let budget : ℚ ← call (.budget source)
  pure ⟨.ok (if budget ≤ 0 then .refuse else .proceed), req, rel⟩

/-- `Apply` of `RedisLeasedRateGate`. -/
def applyLeasedRate (gate : ℕ) (req : GateRequest) (rel : List Hold) : GateCode GateReturn := do
  let allowed : Option Bool ← call (.leasedRate gate)
  pure ⟨.ok (if allowed = some true then .proceed else .refuse), req, rel⟩

namespace QuotaGate

/-- The key of a value of the attribute. -/
def key (g : QuotaGate) (val : String) : String := g.keyPrefix ++ g.attr ++ ":" ++ val

/-- `Apply` after the store has answered: an error, a refusal, or an admission with the reservation,
if there is one. -/
def finish (g : QuotaGate) (key : String) (req : GateRequest) (rel : List Hold) :
    Except String (Option (List Hold)) → GateReturn
  | .error e => ⟨.error ("quota gate " ++ key ++ ": " ++ e), req, rel⟩
  | .ok none =>
    let req := req.setClassification classificationOverflow
    match g.gatingMode with
    | .blocking => ⟨.ok (Verdict.refuse.withReason reasonQuotaExhausted), req, rel⟩
    | .classifying => ⟨.ok .proceed, req, rel⟩
  | .ok (some hs) => ⟨.ok .proceed, req.setClassification classificationReserved, rel ++ hs⟩

/-- `Apply`. -/
def apply (g : QuotaGate) (req : GateRequest) (rel : List Hold) : GateCode GateReturn :=
  match Hash.hget req.metadata g.attr with
  | none => pure ⟨.ok .proceed, req, rel⟩
  | some val =>
    match g.mode with
    | .concurrency => do
      let slot : Except String (Option ℕ) ←
        call (.acquireSlot g.store (g.key val) g.limit)
      pure (g.finish (g.key val) req rel
        (slot.map fun id? => id?.map fun id => [⟨id, .slot g.store (g.key val)⟩]))
    | .rateLimit => do
      let admitted : Except String Bool ←
        call (.admitRate g.store (g.key val) g.limit g.window)
      pure (g.finish (g.key val) req rel
        (admitted.map fun ok => if ok then some [] else none))

end QuotaGate

/-- `Apply` of `LocalConcurrencyGate`. -/
def LocalGate.apply (g : LocalGate) (gate : ℕ) (req : GateRequest) (rel : List Hold) :
    GateCode GateReturn :=
  if g.limit ≤ 0 then pure ⟨.ok .refuse, req, rel⟩
  else
    match g.gatingMode with
    | .blocking => do
      let sent : Except String ℕ ← call (.semSend gate)
      match sent with
      | .error e => pure ⟨.error ("context canceled: " ++ e), req, rel⟩
      | .ok id =>
        call (.count gate 1)
        pure ⟨.ok .proceed, req, rel ++ [⟨id, .sem gate⟩]⟩
    | .classifying => do
      let entered : Option ℕ ← call (.tryEnter gate)
      match entered with
      | none => pure ⟨.ok .refuse, req, rel⟩
      | some id => pure ⟨.ok .proceed, req, rel ++ [⟨id, .entry gate⟩]⟩

/-! ### Trees -/

/-- What `CreateGate` can build.  Local gates are named, and all calls of a gate share its state. -/
inductive Gate where
  /-- `ConstOpenGate`, also for an unknown type. -/
  | constOpen
  /-- A gate that refuses when its budget is used up. -/
  | budget (source : ℕ)
  | leasedRate (gate : ℕ)
  | quota (g : QuotaGate)
  | localConcurrency (gate : ℕ)
  | composite (gates : List Gate)
  | waitOnRefuse (inner : Gate)
  | tierPriority (saturation : Gate) (tierLabel : String)

/-- What `WaitOnRefuseGate` makes of the return of the inner gate. -/
def GateReturn.waitOnRefuse (r : GateReturn) : GateReturn :=
  { r with verdict := match r.verdict with
    | .error e => .error ("inner gate apply failed: " ++ e)
    | .ok v => .ok (if v.action = .refuse then { v with action := .wait } else v) }

/-- The verdict of `TierPriorityAdmissionGate` when the inner gate refuses. -/
def saturatedVerdict (tierLabel : String) (req : GateRequest) : Verdict :=
  if req.getClassification = classificationReserved then .wait
  else if (Hash.hget req.labels tierLabel).getD "" = tierInteractive ∧
      req.getClassification = classificationOverflow then
    .drop (some ⟨req.id, "\x7b\"error\": \"Too Many Requests\", \"code\": 429\x7d"⟩)
  else .refuse

/-- What `TierPriorityAdmissionGate` makes of the return of the inner gate. -/
def GateReturn.tierPriority (r : GateReturn) (tierLabel : String) : GateReturn :=
  { r with verdict := match r.verdict with
    | .error e => .error ("saturation gate failed: " ++ e)
    | .ok v => .ok (if v.action = .refuse then saturatedVerdict tierLabel r.req else .proceed) }

/-- The end of `ApplyChain` when a gate has failed or has not continued: what the chain has
appended is released. -/
def rollback (snapshot : ℕ) (r : GateReturn) : GateCode GateReturn := do
  releaseAll (r.releases.drop snapshot).reverse
  pure { r with releases := r.releases.take snapshot }

def GateReturn.proceeds (r : GateReturn) : Bool :=
  match r.verdict with
  | .ok v => decide (v.action = .proceed)
  | .error _ => false

section Apply

variable (locals : ℕ → LocalGate)

mutual

/-- `Apply`. -/
def Gate.apply : Gate → GateRequest → List Hold → GateCode GateReturn
  | .constOpen, req, rel => pure ⟨.ok .proceed, req, rel⟩
  | .budget source, req, rel => applyBudget source req rel
  | .leasedRate gate, req, rel => applyLeasedRate gate req rel
  | .quota g, req, rel => g.apply req rel
  | .localConcurrency gate, req, rel => (locals gate).apply gate req rel
  | .composite gates, req, rel => applyChain gates rel.length req rel
  | .waitOnRefuse inner, req, rel => do
    let r ← inner.apply req rel
    pure r.waitOnRefuse
  | .tierPriority saturation tierLabel, req, rel => do
    let r ← saturation.apply req rel
    pure (r.tierPriority tierLabel)

/-- `ApplyChain`, given the length of `releases` at its start. -/
def Gate.applyChain : List Gate → ℕ → GateRequest → List Hold → GateCode GateReturn
  | [], _, req, rel => pure ⟨.ok .proceed, req, rel⟩
  | gate :: gates, snapshot, req, rel => do
    let r ← gate.apply req rel
    if r.proceeds then applyChain gates snapshot r.req r.releases else rollback snapshot r

end

end Apply

lemma exists_of_proceeds {r : GateReturn} (h : r.proceeds = true) :
    ∃ v, r.verdict = .ok v ∧ v.action = .proceed := by
  unfold GateReturn.proceeds at h
  split at h
  next v hv => exact ⟨v, hv, of_decide_eq_true h⟩
  · cases h

lemma proceeds_waitOnRefuse {r : GateReturn} (h : r.proceeds = true) :
    r.waitOnRefuse.proceeds = true := by
  obtain ⟨v, hv, hproceed⟩ := exists_of_proceeds h
  simp [GateReturn.proceeds, GateReturn.waitOnRefuse, hv, hproceed]

/-- `TierPriorityAdmissionGate` continues on all verdicts but a refusal. -/
lemma proceeds_tierPriority {r : GateReturn} {v : Verdict} (hv : r.verdict = .ok v)
    (hne : v.action ≠ .refuse) (tierLabel : String) :
    (r.tierPriority tierLabel).proceeds = true := by
  simp [GateReturn.proceeds, GateReturn.tierPriority, hv, hne, Verdict.proceed]

/-! ### What becomes of the request -/

/-- What `Apply` says about the request: nothing has changed but its classification, and that only
if it has attributes, and a gate that has a result of its own has it for this request. -/
structure About (req : GateRequest) (r : GateReturn) : Prop where
  id : r.req.id = req.id
  metadata : r.req.metadata = req.metadata
  labels : ∀ k, k ≠ labelClassification → Hash.hget r.req.labels k = Hash.hget req.labels k
  unasked : (∀ k, Hash.hget req.metadata k = none) → r.req = req
  result : ∀ v, r.verdict = .ok v → ∀ d ∈ v.result, d.id = req.id

namespace About

variable {req : GateRequest} {r : GateReturn}

lemma same {verdict : Except String Verdict} (h : ∀ v, verdict = .ok v → v.result = none)
    (req : GateRequest) (rel : List Hold) : About req ⟨verdict, req, rel⟩ := by
  refine ⟨rfl, rfl, fun _ _ => rfl, fun _ => rfl, fun v hv d hd => ?_⟩
  rw [h v hv] at hd
  cases hd

lemma classified {verdict : Except String Verdict} (h : ∀ v, verdict = .ok v → v.result = none)
    {req : GateRequest} {attr val : String} (hattr : Hash.hget req.metadata attr = some val)
    (c : String) (rel : List Hold) : About req ⟨verdict, req.setClassification c, rel⟩ := by
  refine ⟨rfl, rfl, fun k hk => Hash.hget_hset_of_ne _ _ hk, fun hnone => ?_, fun v hv d hd => ?_⟩
  · rw [hnone] at hattr
    cases hattr
  · rw [h v hv] at hd
    cases hd

lemma trans {r' : GateReturn} (h : About req r) (h' : About r.req r') : About req r' where
  id := h'.id.trans h.id
  metadata := h'.metadata.trans h.metadata
  labels k hk := (h'.labels k hk).trans (h.labels k hk)
  unasked hnone := (h'.unasked (h.metadata ▸ hnone)).trans (h.unasked hnone)
  result v hv d hd := (h'.result v hv d hd).trans h.id

lemma wrap {r' : GateReturn} (h : About req r) (hreq : r'.req = r.req)
    (hresult : ∀ v, r'.verdict = .ok v → ∀ d ∈ v.result, d.id = req.id) : About req r' where
  id := hreq ▸ h.id
  metadata := hreq ▸ h.metadata
  labels := hreq ▸ h.labels
  unasked := hreq ▸ h.unasked
  result := hresult

lemma waitOnRefuse (h : About req r) : About req r.waitOnRefuse := by
  refine h.wrap rfl fun v hv d hd => ?_
  unfold GateReturn.waitOnRefuse at hv
  cases hverdict : r.verdict with
  | error e =>
    rw [hverdict] at hv
    cases hv
  | ok v' =>
    rw [hverdict] at hv
    cases hv
    refine h.result v' hverdict d ?_
    split at hd <;> exact hd

lemma tierPriority (h : About req r) (tierLabel : String) :
    About req (r.tierPriority tierLabel) := by
  refine h.wrap rfl fun v hv d hd => ?_
  unfold GateReturn.tierPriority at hv
  cases hverdict : r.verdict with
  | error e =>
    rw [hverdict] at hv
    cases hv
  | ok v' =>
    rw [hverdict] at hv
    cases hv
    split at hd
    · unfold saturatedVerdict at hd
      split at hd
      · cases hd
      · split at hd
        · cases hd
          exact h.id
        · cases hd
    · cases hd

lemma finish (g : QuotaGate) (key : String) {attr val : String}
    (hattr : Hash.hget req.metadata attr = some val) (rel : List Hold)
    (answer : Except String (Option (List Hold))) : About req (g.finish key req rel answer) := by
  match answer with
  | .error e => exact same (fun v hv => by cases hv) req rel
  | .ok none =>
    unfold QuotaGate.finish
    cases g.gatingMode with
    | blocking | classifying => exact classified (fun v hv => by cases hv; rfl) hattr _ rel
  | .ok (some hs) => exact classified (fun v hv => by cases hv; rfl) hattr _ _

lemma quota (g : QuotaGate) (req : GateRequest) (rel : List Hold) :
    (g.apply req rel).Returns (About req) := by
  unfold QuotaGate.apply
  split
  · exact same (fun v hv => by cases hv; rfl) req rel
  next val hattr =>
    split
    · exact fun _ => finish g _ hattr rel _
    · exact fun _ => finish g _ hattr rel _

lemma localGate (g : LocalGate) (gate : ℕ) (req : GateRequest) (rel : List Hold) :
    (g.apply gate req rel).Returns (About req) := by
  unfold LocalGate.apply
  split
  · exact same (fun v hv => by cases hv; rfl) req rel
  · split
    · intro sent
      cases sent with
      | error e => exact same (fun v hv => by cases hv) req rel
      | ok id => exact fun _ => same (fun v hv => by cases hv; rfl) req _
    · intro entered
      cases entered with
      | none => exact same (fun v hv => by cases hv; rfl) req rel
      | some id => exact same (fun v hv => by cases hv; rfl) req _

lemma rollback (snapshot : ℕ) (h : About req r) :
    (FlowControl.rollback snapshot r).Returns (About req) := by
  have hall : ∀ {α : Type} (p : GateCode α), p.Returns fun _ => True := by
    intro α p
    induction p with
    | done a => exact trivial
    | act i k ih => exact fun r => ih r
  exact .bind ((hall _).weaken fun _ _ => h.wrap rfl h.result)

end About

mutual

/-- `Apply` of any gate. -/
theorem Gate.apply_about (locals : ℕ → LocalGate) (g : Gate) (req : GateRequest) (rel : List Hold) :
    (g.apply locals req rel).Returns (About req) := by
  match g with
  | .constOpen =>
    rw [Gate.apply]
    exact About.same (fun v hv => by cases hv; rfl) req rel
  | .budget source =>
    rw [Gate.apply]
    intro budget
    refine About.same (fun v hv => ?_) req rel
    cases hv
    split <;> rfl
  | .leasedRate gate =>
    rw [Gate.apply]
    intro allowed
    refine About.same (fun v hv => ?_) req rel
    cases hv
    split <;> rfl
  | .quota g =>
    rw [Gate.apply]
    exact About.quota g req rel
  | .localConcurrency gate =>
    rw [Gate.apply]
    exact About.localGate (locals gate) gate req rel
  | .composite gates =>
    rw [Gate.apply]
    exact Gate.applyChain_about locals gates rel.length req rel
  | .waitOnRefuse inner =>
    rw [Gate.apply]
    exact .bind ((Gate.apply_about locals inner req rel).weaken fun _ h => h.waitOnRefuse)
  | .tierPriority saturation tierLabel =>
    rw [Gate.apply]
    exact .bind ((Gate.apply_about locals saturation req rel).weaken fun _ h =>
      h.tierPriority tierLabel)

/-- `ApplyChain`. -/
theorem Gate.applyChain_about (locals : ℕ → LocalGate) (gates : List Gate) (snapshot : ℕ)
    (req : GateRequest) (rel : List Hold) :
    (Gate.applyChain locals gates snapshot req rel).Returns (About req) := by
  match gates with
  | [] =>
    rw [Gate.applyChain]
    exact About.same (fun v hv => by cases hv; rfl) req rel
  | gate :: gates =>
    rw [Gate.applyChain]
    refine .bind ((Gate.apply_about locals gate req rel).weaken fun r h => ?_)
    split
    · exact (Gate.applyChain_about locals gates snapshot r.req r.releases).weaken fun _ h' =>
        h.trans h'
    · exact h.rollback snapshot

end

end LlmdAsync.FlowControl
