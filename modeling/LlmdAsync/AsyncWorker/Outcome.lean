import LlmdAsync.AsyncWorker.Worker
import LlmdAsync.FlowControl.GateReleases

/-!
# One outcome for every message

What a worker does with a message along every path of `processMessage`: it puts one message on the
retry channel or the result channel, unless `requestCtx` ends, a result carries the id and the
routing of the message, the request is sent at most once and only after the gate has let it through,
and everything the gate has reserved is released once.

A ghost state counts along (`Progress`).  Every function takes a message that is `Open`, with
nothing put, to one that is `Closed`, or returns it open.  The ghost state also has what the worker
has found out about the time: a result for the deadline is only offered if the deadline is known to
be reached, and the context of a send is made from a reading of the clock.
-/

namespace LlmdAsync.AsyncWorker

open List Action Worker

open FlowControl (GateAction GateRequest GateReturn Gate Hold LocalGate Verdict Ledger)

/-! ### What a path shows -/

/-- A message on one of the two channels. -/
inductive Put where
  | retry (m : RetryMessage)
  | result (r : ResultMessage)

/-- What an action puts on a channel. -/
def Action.put : (a : Action) → a.Reply → Option Put
  | .putRetry m, _ => some (.retry m)
  | .offerRetry m, sent => if sent then some (.retry m) else none
  | .offerResult r, sent => if sent then some (.result r) else none
  | _, _ => none

/-- The answer shows that `requestCtx` has ended. -/
def Action.ended : (a : Action) → a.Reply → Bool
  | .requestCtxErr, ended => ended
  | .offerRetry _, sent => !sent
  | .offerResult _, sent => !sent
  | _, _ => false

/-- The action is `SendRequest`. -/
def Action.isSend : Action → Bool
  | .send .. => true
  | _ => false

/-- Whether the gate is open after an action. -/
def Action.opens (a : Action) (opened : Bool) : Bool :=
  match a with
  | .gateReturned (.ok v) _ => decide (v.action = .proceed)
  | .gateReturned (.error _) _ => false
  | _ => opened

/-- The labels of the message after an action. -/
def Action.relabels (a : Action) (labels : Hash String String) : Hash String String :=
  match a with
  | .gateReturned _ labels => labels
  | _ => labels

def Action.gateStep : (a : Action) → a.Reply → Option (Sigma GateAction.Reply)
  | .gate a, r => some ⟨a, r⟩
  | _, _ => none

/-- The messages put on a channel along a path. -/
def puts (tr : List (Sigma Action.Reply)) : List Put := tr.filterMap fun e => e.1.put e.2

/-- `requestCtx` is not cancelled on the path. -/
def Undisturbed (tr : List (Sigma Action.Reply)) : Prop := ∀ e ∈ tr, e.1.ended e.2 = false

def sends (tr : List (Sigma Action.Reply)) : ℕ := tr.countP fun e => e.1.isSend

/-- Whether the gate is open after a path: it is, if there is none, and otherwise if its last
verdict was to continue. -/
def openedAfter (opened : Bool) (tr : List (Sigma Action.Reply)) : Bool :=
  tr.foldl (fun b e => e.1.opens b) opened

/-- The labels of the message after a path. -/
def labelsAfter (labels : Hash String String) (tr : List (Sigma Action.Reply)) :
    Hash String String :=
  tr.foldl (fun labels e => e.1.relabels labels) labels

/-- What the last transform has made of the payload, if it has handled the message. -/
def Action.handles : (a : Action) → a.Reply → Option (Bytes × String) → Option (Bytes × String)
  | .transform .., .ok handled, _ => handled
  | .transform .., .error _, _ => none
  | _, _, handled => handled

/-- What a reading of the clock shows. -/
def Action.readings : (a : Action) → a.Reply → List ℤ
  | .now, t => [t]
  | _, _ => []

/-- The context of a send is found expired. -/
def Action.expires : (a : Action) → a.Reply → Bool
  | .reqCtxExceeded _, exceeded => exceeded
  | _, _ => false

/-- The labels are the same, up to the one that gates set. -/
def SameLabels (labels labels' : Hash String String) : Prop :=
  ∀ k, k ≠ FlowControl.labelClassification → Hash.hget labels' k = Hash.hget labels k

def gateSteps (tr : List (Sigma Action.Reply)) : List (Sigma GateAction.Reply) :=
  tr.filterMap fun e => e.1.gateStep e.2

/-- The message with these labels. -/
def Message.relabelled (msg : Message) (labels : Hash String String) : Message :=
  { msg with routing := { msg.routing with labels := labels } }

/-- The result is one of the message with these labels: it carries its id and its routing. -/
structure Carries (msg : Message) (labels : Hash String String) (r : ResultMessage) : Prop where
  id : r.id = msg.id
  routing : r.routing = { msg.routing with labels := labels }

/-! ### The ghost state -/

/-- What has happened to a message. -/
structure Progress where
  ended : Bool
  puts : ℕ
  sends : ℕ
  opened : Bool
  labels : Hash String String
  handled : Option (Bytes × String)
  readings : List ℤ
  expired : Bool
  ledger : Ledger

namespace Progress

def start (w : Worker) (msg : Message) : Progress :=
  ⟨false, 0, 0, w.poolGate.isNone, msg.routing.labels, none, [], false, .of []⟩

/-- An action and its answer. -/
def enter (g : Progress) (a : Action) (r : a.Reply) : Progress where
  ended := g.ended || a.ended r
  puts := g.puts + (a.put r).toList.length
  sends := g.sends + if a.isSend then 1 else 0
  opened := a.opens g.opened
  labels := a.relabels g.labels
  handled := a.handles r g.handled
  readings := a.readings r ++ g.readings
  expired := g.expired || a.expires r
  ledger :=
    match a.gateStep r with
    | some e => g.ledger.enter e.1 e.2
    | none => g.ledger

/-- The worker has found out that the deadline of the message has been reached. -/
def Told (msg : Message) (g : Progress) : Prop :=
  g.expired = true ∨ ∃ t ∈ g.readings, msg.deadlineNs ≤ t

/-- The worker has the message as `msg'`, nothing has been put, and the gate has these
reservations. -/
structure Open (msg msg' : Message) (rel : List Hold) (n : ℕ) (opened : Bool)
    (out : Option (Bytes × String)) (g : Progress) : Prop where
  same : msg' = msg.relabelled g.labels
  handled : g.handled = out
  puts : g.puts = 0
  sends : g.sends = n
  opened : g.opened = opened
  ledger : g.ledger = .of rel

/-- One message has been put, unless `requestCtx` has ended, and the gate has these reservations. -/
structure Closed (rel : List Hold) (g : Progress) : Prop where
  puts : g.ended = true ∨ g.puts = 1
  ledger : g.ledger = .of rel

end Progress

open Progress

/-- The message, or the message with its retry count raised. -/
def Message.Repeats (msg msg' : Message) : Prop := msg' = msg ∨ msg' = msg.retried

/-- Where actions are allowed: the request is sent once, if the gate is open, and with the payload
of the message unless a transform has handled it, results and retries carry the message, and the
gate does what it may do.  Results for the deadline come in time, as far as the worker knows. -/
def Heeded (w : Worker) (msg : Message) (a : Action) (g : Progress) : Prop :=
  match a with
  | .send _ headers payload => (g.sends = 0 ∧ g.opened = true) ∧
      (headers, payload) = msg.outgoing msg.payloadBytes g.handled
  | .putRetry m => (msg.relabelled g.labels).Repeats m.msg
  | .offerRetry m => (msg.relabelled g.labels).Repeats m.msg
  | .offerResult r =>
      Carries msg g.labels r ∧ (r.errorCode = errCodeDeadlineExceeded → g.Told msg)
  | .reqCtxExceeded d => ∃ now ∈ g.readings, d = w.reqDeadline msg now
  | .gateReturned _ labels => SameLabels g.labels labels
  | .gate a => FlowControl.Permitted w.locals a g.ledger
  | _ => True

/-- The code of a worker that has taken this message. -/
abbrev Works (w : Worker) (msg : Message) {α : Type} (p : Code α) (Q : α → Progress → Prop)
    (g : Progress) : Prop :=
  p.Follows (Heeded w msg) (fun a r g => g.enter a r) Q g

/-- Actions that only find something out. -/
def Action.Plain : Action → Prop
  | .now | .requestCtxErr | .isCancelled .. | .validate .. | .gateCtxDone | .park ..
  | .random => True
  | _ => False

section Rules

variable {w : Worker} {msg msg' : Message} {rel : List Hold} {n : ℕ} {b : Bool}
  {out : Option (Bytes × String)} {g : Progress}

lemma SameLabels.refl (labels : Hash String String) : SameLabels labels labels := fun _ _ => rfl

lemma SameLabels.trans {l₁ l₂ l₃ : Hash String String} (h : SameLabels l₁ l₂)
    (h' : SameLabels l₂ l₃) : SameLabels l₁ l₃ := fun k hk => (h' k hk).trans (h k hk)

lemma Progress.Open.carries (h : Open msg msg' rel n b out g) {r : ResultMessage}
    (hid : r.id = msg'.id) (hrouting : r.routing = msg'.routing) : Carries msg g.labels r := by
  have hsame := h.same
  subst hsame
  exact ⟨hid, hrouting⟩

lemma Progress.Open.repeats (h : Open msg msg' rel n b out g) :
    (msg.relabelled g.labels).Repeats msg' := .inl h.same

lemma Progress.Open.deadline_eq (h : Open msg msg' rel n b out g) :
    msg'.deadline = msg.deadline := by
  rw [h.same]
  rfl

lemma Progress.Open.reqDeadline_eq (h : Open msg msg' rel n b out g) (now : ℤ) :
    w.reqDeadline msg' now = w.reqDeadline msg now := by
  unfold Worker.reqDeadline Message.deadlineNs
  rw [h.deadline_eq]

/-- A reading of the clock tells of the deadline. -/
lemma Progress.Open.told {t : ℤ} (h : Open msg msg' rel n b out g) (ht : msg'.deadlineNs ≤ t) :
    (g.enter .now t).Told msg := by
  unfold Message.deadlineNs at ht
  rw [h.deadline_eq] at ht
  exact .inr ⟨t, mem_cons_self, ht⟩

lemma deadlineNs_le {t : ℤ} (ht : msg.deadline ≤ t / second) : msg.deadlineNs ≤ t := by
  unfold second at ht
  unfold Message.deadlineNs second
  omega

lemma carries_droppedResult {r : GateReturn} (h : Open msg (msg'.relabel r.req) rel n b out g)
    (hr : FlowControl.About msg'.gateRequest r) {v : Verdict} (hv : r.verdict = .ok v) :
    Carries msg g.labels (w.droppedResult (msg'.relabel r.req) v) := by
  unfold droppedResult
  split
  next d hd =>
    exact h.carries (hr.result v hv d hd) rfl
  · exact h.carries rfl rfl

lemma errorCode_droppedResult (v : Verdict) :
    (w.droppedResult msg v).errorCode ≠ errCodeDeadlineExceeded := by
  unfold droppedResult
  split
  · exact show "" ≠ errCodeDeadlineExceeded by decide
  · exact show "GATE_DROPPED" ≠ errCodeDeadlineExceeded by decide

lemma Progress.Open.plain (h : Open msg msg' rel n b out g) {a : Action} (ha : a.Plain)
    (r : a.Reply) : Open msg msg' rel n b out (g.enter a r) := by
  obtain ⟨hsame, hout, hputs, hsends, hopened, hledger⟩ := h
  cases a with
  | now | requestCtxErr | isCancelled | validate | gateCtxDone | park | random =>
    exact ⟨hsame, hout, hputs, hsends, hopened, hledger⟩
  | _ => exact ha.elim

lemma works_plain {α : Type} {a : Action} {f : a.Reply → Code α} {Q : α → Progress → Prop}
    (ha : a.Plain) (hopen : Open msg msg' rel n b out g)
    (h : ∀ r, Open msg msg' rel n b out (g.enter a r) → Works w msg (f r) Q (g.enter a r)) :
    Works w msg (call a >>= f) Q g := by
  refine .step ?_ fun r => h r (hopen.plain ha r)
  cases a with
  | send | putRetry | offerRetry | offerResult | gate | gateReturned | reqCtxExceeded =>
    exact ha.elim
  | _ => exact trivial

/-- Readings of the clock are not forgotten. -/
lemma works_extends {α : Type} {p : Code α} {Q : α → Progress → Prop} (h : Works w msg p Q g) :
    Works w msg p (fun a g' => Q a g' ∧ g.readings ⊆ g'.readings) g := by
  suffices hkeep : ∀ g', g.readings ⊆ g'.readings → Works w msg p Q g' →
      Works w msg p (fun a g'' => Q a g'' ∧ g.readings ⊆ g''.readings) g' from
    hkeep g (Subset.refl _) h
  clear h
  induction p with
  | done a => exact fun g' hsub h => ⟨h, hsub⟩
  | act i k ih =>
    exact fun g' hsub h =>
      ⟨h.1, fun r => ih r _ (Subset.trans hsub (subset_append_right _ _)) (h.2 r)⟩

lemma works_emit (hopen : Open msg msg' rel n b out g) {r : ResultMessage}
    (hr : Carries msg g.labels r) (hdue : r.errorCode = errCodeDeadlineExceeded → g.Told msg) :
    Works w msg (emit r) (fun _ g' => Closed rel g') g := by
  refine ⟨⟨hr, hdue⟩, fun sent => ⟨?_, hopen.ledger⟩⟩
  cases sent with
  | true => exact .inr (by simp [enter, Action.put, hopen.puts])
  | false => exact .inl (by simp [enter, Action.ended])

lemma works_emitError (hopen : Open msg msg' rel n b out g) {code : String}
    (hcode : code ≠ errCodeDeadlineExceeded) (err : String) :
    Works w msg (emit (w.newErrorResult msg' code err)) (fun _ g' => Closed rel g') g :=
  works_emit hopen (hopen.carries rfl rfl) fun h => absurd h hcode

lemma works_emitResponse (hopen : Open msg msg' rel n b out g) (resp : InferenceResponse) :
    Works w msg (emit (newHTTPResult msg' resp)) (fun _ g' => Closed rel g') g :=
  works_emit hopen (hopen.carries rfl rfl) fun h =>
    absurd h (show "" ≠ errCodeDeadlineExceeded by decide)

lemma works_emitExceeded (hopen : Open msg msg' rel n b out g) (htold : g.Told msg) :
    Works w msg (emit (w.newDeadlineExceededResult msg')) (fun _ g' => Closed rel g') g :=
  works_emit hopen (hopen.carries rfl rfl) fun _ => htold

lemma works_requeue (hopen : Open msg msg' rel n b out g) {m : RetryMessage}
    (hm : (msg.relabelled g.labels).Repeats m.msg) :
    Works w msg (requeue m) (fun _ g' => Closed rel g') g := by
  refine ⟨hm, fun sent => ⟨?_, hopen.ledger⟩⟩
  cases sent with
  | true => exact .inr (by simp [enter, Action.put, hopen.puts])
  | false => exact .inl (by simp [enter, Action.ended])

lemma works_putRetry (hputs : g.puts = 0) (hledger : g.ledger = .of rel) {m : RetryMessage}
    (hm : (msg.relabelled g.labels).Repeats m.msg) :
    Works w msg (call (.putRetry m)) (fun _ g' => Closed rel g') g :=
  ⟨hm, fun _ => ⟨.inr (by simp [enter, put, hputs]), hledger⟩⟩

lemma works_then {α β : Type} {p : Code α} {Q : α → Progress → Prop} {Q' : β → Progress → Prop}
    {f : α → β} (hp : Works w msg p Q g) (h : ∀ a g', Q a g' → Q' (f a) g') :
    Works w msg (p >>= fun a => pure (f a)) Q' g :=
  (Prog.follows_bind _ _).mpr (hp.weaken h)

lemma works_emitCancelled (hopen : Open msg msg' rel n b out g)
    (nextCheck : Option ℤ) :
    Works w msg (w.emitCancelledResultIfNeeded msg' nextCheck)
      (fun check g' => if check.1 then Closed rel g' else Open msg msg' rel n b out g') g := by
  refine works_plain trivial hopen fun now hopen => ?_
  split
  · exact hopen
  · refine works_plain trivial hopen fun cancelled hopen => ?_
    match cancelled with
    | none => exact works_then (works_requeue hopen hopen.repeats) fun _ _ h => h
    | some false => exact hopen
    | some true => exact works_then (works_emitError hopen (by decide) _) fun _ _ h => h

lemma works_validateAndMarshal (hopen : Open msg msg' rel n b out g) :
    Works w msg (w.validateAndMarshal msg')
      (fun payload g' => match payload with
        | none => Closed rel g'
        | some bytes => Open msg msg' rel n b out g' ∧ bytes = msg.payloadBytes) g := by
  have hbytes : msg'.payloadBytes = msg.payloadBytes := by
    rw [hopen.same]
    rfl
  unfold validateAndMarshal
  split
  · exact works_then (works_emitError hopen (by decide) _) fun _ _ h => h
  · refine works_plain trivial hopen fun (now : ℤ) hopen' => ?_
    split
    next hlate =>
      have htold := hopen.told (deadlineNs_le (Int.le_of_lt hlate))
      exact works_then (works_emitExceeded hopen' htold) fun _ _ h => h
    · refine works_plain trivial hopen' fun failed hopen => ?_
      cases failed with
      | some err => exact works_then (works_emitError hopen (by decide) _) fun _ _ h => h
      | none => exact ⟨hopen, hbytes⟩

lemma deadlineNs_le_of_reached {t : ℤ} (h : msg.deadlineReached t = true) :
    msg.deadlineNs ≤ t := by
  unfold Message.deadlineReached at h
  split at h
  · cases h
  · exact of_decide_eq_true h

lemma works_finishGateContext (hopen : Open msg msg' rel n b out g) :
    Works w msg (w.finishGateContext msg') (fun _ g' => Closed rel g') g := by
  -- a retry that was given up because `requestCtx` has ended is put all the same
  have hretry : ∀ {g : Progress}, Open msg msg' rel n b out g → Works w msg
      (call (.offerRetry ⟨msg', 0⟩) >>= fun sent =>
        if sent then pure () else call (.putRetry ⟨msg', 0⟩)) (fun _ g' => Closed rel g') g := by
    intro g hopen
    refine ⟨hopen.repeats, fun sent => ?_⟩
    cases sent with
    | true => exact ⟨.inr (by simp [enter, put, hopen.puts]), hopen.ledger⟩
    | false =>
      have hledger : (g.enter (.offerRetry ⟨msg', 0⟩) false).ledger = .of rel := hopen.ledger
      have hputs : (g.enter (.offerRetry ⟨msg', 0⟩) false).puts = 0 := by
        simpa [enter, put] using hopen.puts
      exact works_putRetry hputs hledger hopen.repeats
  refine works_plain trivial hopen fun cancelled hopen => ?_
  cases cancelled with
  | true => exact hretry hopen
  | false =>
    refine works_plain trivial hopen fun (now : ℤ) hopen' => ?_
    beta_reduce
    split
    next hreached =>
      have hle := deadlineNs_le_of_reached (by simpa using hreached)
      exact works_emitExceeded hopen' (hopen.told hle)
    · exact hretry hopen'

lemma works_ofGate {α : Type} {p : FlowControl.GateCode α} {Q : α → Ledger → Prop}
    (hp : FlowControl.Follows w.locals p Q g.ledger) :
    Works w msg (ofGate p) (fun a g' => Q a g'.ledger ∧ g' = { g with ledger := g'.ledger }) g := by
  have hA : ∀ a l g', FlowControl.Permitted w.locals a l → g' = { g with ledger := l } →
      Heeded w msg (.gate a) g' ∧
        ∀ r : a.Reply, g'.enter (.gate a) r = { g with ledger := l.enter a r } := by
    rintro a l g' ha rfl
    refine ⟨ha, fun r => ?_⟩
    simp [enter, Action.ended, Action.put, Action.isSend, Action.opens, Action.relabels,
      Action.handles, Action.readings, Action.expires, Action.gateStep]
  refine (Prog.Follows.embed (A := fun l g' => g' = { g with ledger := l }) hA hp rfl).weaken ?_
  rintro a g' ⟨l, hQ, rfl⟩
  exact ⟨hQ, rfl⟩

lemma works_apply (gate : Gate) (req : GateRequest) (hopen : Open msg msg' rel n b out g) :
    Works w msg (ofGate (gate.apply w.locals req rel)) (fun r g' =>
      Open msg msg' r.releases n b out g' ∧
      (∃ kept, r.releases = rel ++ kept ∧ ∀ h ∈ kept, h.Fits w.locals) ∧
      FlowControl.About req r) g := by
  have hfollows : FlowControl.Follows w.locals (gate.apply w.locals req rel)
      (FlowControl.Returned w.locals rel) (.of rel) := FlowControl.Gate.apply_follows gate req rel
  rw [← hopen.ledger] at hfollows
  refine (works_ofGate (hfollows.returns
    (FlowControl.Gate.apply_about w.locals gate req rel))).weaken ?_
  rintro r g' ⟨⟨⟨hledger, kept, hkept, hfit, -⟩, habout⟩, hg'⟩
  refine ⟨?_, ⟨kept, hkept, hfit⟩, habout⟩
  rw [hg', hledger]
  exact ⟨hopen.same, hopen.handled, hopen.puts, hopen.sends, hopen.opened, rfl⟩

lemma works_release (hclosed : Closed rel g) (hfit : ∀ h ∈ rel, h.Fits w.locals) :
    Works w msg (releaseGateReleases rel) (fun _ g' => Closed [] g') g := by
  have hfollows : FlowControl.Follows w.locals (FlowControl.releaseAll rel.reverse)
      (fun _ l => l = .of []) (.of (rel.reverse ++ [])) :=
    FlowControl.releaseAll_follows (fun h hh => hfit h (mem_reverse.mp hh)) []
  rw [append_nil, Ledger.of_perm rel.reverse_perm, ← hclosed.ledger] at hfollows
  refine (works_ofGate hfollows).weaken ?_
  rintro _ g' ⟨hledger, hsame⟩
  refine ⟨?_, hledger⟩
  rw [hsame]
  exact hclosed.puts

/-- What the gate makes of a message: it is closed, or open and free to be sent. -/
def Gated (w : Worker) (msg : Message) : GateOutcome → Progress → Prop
  | .finished rel, g => Closed rel g ∧ ∀ h ∈ rel, h.Fits w.locals
  | .passed msg' rel _, g => Open msg msg' rel 0 true none g ∧ ∀ h ∈ rel, h.Fits w.locals

lemma works_gateLoop (gate : Gate) (deadline : ℤ) (waits : ℕ) (t : ℤ) (nextCheck : Option ℤ)
    {msg' : Message} {rel : List Hold} {b : Bool} {g : Progress}
    (hopen : Open msg msg' rel 0 b none g) (hfit : ∀ h ∈ rel, h.Fits w.locals) :
    Works w msg (w.gateLoop gate deadline waits t msg' rel nextCheck) (Gated w msg) g := by
  rw [gateLoop]
  refine .bind ((works_emitCancelled hopen nextCheck).weaken ?_)
  intro check g hcheck
  split at hcheck
  next hdone =>
    rw [if_pos hdone]
    exact ⟨hcheck, hfit⟩
  next hdone =>
    rw [if_neg hdone]
    refine .bind ((works_apply gate msg'.gateRequest hcheck).weaken ?_)
    rintro r g ⟨hopen, ⟨kept, hkept, hkeptFit⟩, habout⟩
    have hfit' : ∀ h ∈ r.releases, h.Fits w.locals := by
      intro h hh
      rw [hkept] at hh
      exact (mem_append.mp hh).elim (hfit h) (hkeptFit h)
    have hsame : msg'.relabel r.req = msg.relabelled r.req.labels := by
      rw [hopen.same]
      rfl
    have hlabels : SameLabels g.labels r.req.labels := by
      have hown : msg'.routing.labels = g.labels := by
        rw [hopen.same]
        rfl
      exact fun k hk => hown ▸ habout.labels k hk
    refine .step hlabels fun _ => ?_
    cases hverdict : r.verdict with
    | error e =>
      have hopen' : Open msg (msg'.relabel r.req) r.releases 0 false none
          (g.enter (.gateReturned (.error e) r.req.labels) ()) :=
        ⟨hsame, hopen.handled, hopen.puts, hopen.sends, rfl, hopen.ledger⟩
      refine works_plain trivial hopen' fun done hopen => ?_
      cases done with
      | true => exact works_then (works_finishGateContext hopen) fun _ _ h => ⟨h, hfit'⟩
      | false => exact works_then (works_emitError hopen (by decide) _) fun _ _ h => ⟨h, hfit'⟩
    | ok v =>
      have hopen' : Open msg (msg'.relabel r.req) r.releases 0 (decide (v.action = .proceed)) none
          (g.enter (.gateReturned (.ok v) r.req.labels) ()) :=
        ⟨hsame, hopen.handled, hopen.puts, hopen.sends, rfl, hopen.ledger⟩
      cases haction : v.action with
      | proceed =>
        rw [haction] at hopen'
        simp only [haction]
        exact ⟨hopen', hfit'⟩
      | drop =>
        simp only [haction]
        exact works_then (works_emit hopen' (carries_droppedResult hopen' habout hverdict)
          fun h => absurd h (errorCode_droppedResult v)) fun _ _ h => ⟨h, hfit'⟩
      | refuse =>
        simp only [haction]
        exact works_then (works_requeue hopen' hopen'.repeats) fun _ _ h => ⟨h, hfit'⟩
      | wait =>
        simp only [haction]
        refine works_plain trivial hopen' fun woken hopen => ?_
        rcases woken with _ | ⟨t', ht'⟩
        · exact works_then (works_finishGateContext hopen) fun _ _ h => ⟨h, hfit'⟩
        · exact works_gateLoop gate deadline (waits + 1) t' check.2 hopen hfit'
termination_by (deadline - t).toNat
decreasing_by
  have hbackoff := gateWaitInitialBackoff_le waits
  unfold gateWaitInitialBackoff at hbackoff
  omega

lemma works_retryMessage (hopen : Open msg msg' rel n b out g) (retryAfter : ℤ)
    (lastResp : Option InferenceResponse) :
    Works w msg (w.retryMessage msg' retryAfter lastResp) (fun _ g' => Closed rel g') g := by
  refine works_plain trivial hopen fun (now : ℤ) hopen' => ?_
  split
  next hlate =>
    have htold := hopen.told (deadlineNs_le (by omega : msg'.deadline ≤ now / second))
    unfold deadlineExhaustedResult
    split
    · split
      · exact works_emitResponse hopen' _
      · exact works_emitExceeded hopen' htold
    · exact works_emitExceeded hopen' htold
  · refine works_plain trivial hopen' fun draw hopen => ?_
    refine works_plain trivial hopen fun jitter hopen => works_requeue hopen (.inr ?_)
    rw [hopen.same]

lemma works_sendFailed (hopen : Open msg msg' rel n b out g) {reqDeadline : ℤ}
    (hmade : ∃ now ∈ g.readings, reqDeadline = w.reqDeadline msg now)
    (resp : Option InferenceResponse) (err : SendError) (cancelledInFlight : Bool) :
    Works w msg (w.sendFailed msg' reqDeadline resp err cancelledInFlight)
      (fun _ g' => Closed rel g') g := by
  refine works_plain trivial hopen fun cancelled hopen => ?_
  split
  · exact works_putRetry hopen.puts hopen.ledger hopen.repeats
  · split
    · exact works_emitError hopen (by decide) _
    · refine .step hmade fun exceeded => ?_
      have hopen' : Open msg msg' rel n b out
          ((g.enter .requestCtxErr cancelled).enter (.reqCtxExceeded reqDeadline) exceeded) :=
        ⟨hopen.same, hopen.handled, hopen.puts, hopen.sends, hopen.opened, hopen.ledger⟩
      split
      next hexceeded =>
        exact works_emitExceeded hopen' (.inl (by simp [enter, Action.expires, hexceeded]))
      · split
        · split
          · exact works_emitResponse hopen' _
          · exact works_emitError hopen' (by decide) _
        · exact works_retryMessage hopen' _ _

lemma works_sendInferenceRequest (hopen : Open msg msg' rel 0 true out g) (nextCheck : Option ℤ) :
    Works w msg (w.sendInferenceRequest msg' msg.payloadBytes nextCheck)
      (fun _ g' => Closed rel g') g := by
  refine works_plain trivial hopen fun (now : ℤ) hopen => ?_
  refine .step trivial fun transformed => ?_
  match transformed with
  | .error err =>
    have hopen' : Open msg msg' rel 0 true none
        ((g.enter .now now).enter (.transform msg.payloadBytes msg'.metadata) (.error err)) :=
      ⟨hopen.same, rfl, hopen.puts, hopen.sends, hopen.opened, hopen.ledger⟩
    exact works_emitError hopen' (by decide) _
  | .ok handled =>
    have hopen' : Open msg msg' rel 0 true handled
        ((g.enter .now now).enter (.transform msg.payloadBytes msg'.metadata) (.ok handled)) :=
      ⟨hopen.same, rfl, hopen.puts, hopen.sends, hopen.opened, hopen.ledger⟩
    refine .bind ((works_extends (works_emitCancelled hopen' nextCheck)).weaken ?_)
    rintro check g ⟨hcheck, hreadings⟩
    have hnow : now ∈ g.readings := hreadings mem_cons_self
    split at hcheck
    next hdone =>
      rw [if_pos hdone]
      exact hcheck
    next hdone =>
      rw [if_neg hdone]
      have hout : msg'.outgoing msg.payloadBytes handled =
          msg.outgoing msg.payloadBytes g.handled := by
        rw [hcheck.handled, hcheck.same]
        rfl
      refine .step ⟨⟨hcheck.sends, hcheck.opened⟩, hout⟩ fun reply => ?_
      have hsent : Open msg msg' rel 1 true handled (g.enter (.send msg'.requestURL
          (msg'.outgoing msg.payloadBytes handled).1 (msg'.outgoing msg.payloadBytes handled).2)
          reply) := by
        refine ⟨hcheck.same, hcheck.handled, hcheck.puts, ?_, hcheck.opened, hcheck.ledger⟩
        simp [enter, isSend, hcheck.sends]
      split
      · exact works_emitResponse hsent _
      · exact works_sendFailed hsent ⟨now, hnow, hcheck.reqDeadline_eq now⟩ _ _ _

lemma works_dispatch (hopen : Open msg msg' rel 0 true out g) (nextCheck : Option ℤ) :
    Works w msg (w.dispatch msg' msg.payloadBytes nextCheck) (fun _ g' => Closed rel g') g := by
  refine .bind ((works_emitCancelled hopen nextCheck).weaken ?_)
  intro check g hcheck
  split at hcheck
  next hdone =>
    rw [if_pos hdone]
    exact hcheck
  next hdone =>
    rw [if_neg hdone]
    exact works_sendInferenceRequest hcheck check.2

lemma works_passGate (hopen : Open msg msg [] 0 w.poolGate.isNone none g) (nextCheck : Option ℤ) :
    Works w msg (w.passGate msg nextCheck) (Gated w msg) g := by
  have hnone : ∀ h ∈ ([] : List Hold), h.Fits w.locals := fun _ hh => (not_mem_nil hh).elim
  unfold passGate
  cases hgate : w.poolGate with
  | none =>
    rw [hgate] at hopen
    exact ⟨hopen, hnone⟩
  | some gate =>
    refine works_plain trivial hopen fun now hopen => ?_
    exact works_gateLoop gate _ 0 now nextCheck hopen hnone

lemma works_processMessage (w : Worker) (msg : Message) :
    Works w msg (w.processMessage msg) (fun _ g' => Closed [] g') (.start w msg) := by
  have hstart : Open msg msg [] 0 w.poolGate.isNone none (.start w msg) :=
    ⟨rfl, rfl, rfl, rfl, rfl, rfl⟩
  refine .bind ((works_emitCancelled hstart none).weaken ?_)
  intro check g hcheck
  split at hcheck
  next hdone =>
    rw [if_pos hdone]
    exact hcheck
  rename_i hdone
  rw [if_neg hdone]
  refine .bind ((works_validateAndMarshal hcheck).weaken ?_)
  intro payload g hpayload
  cases payload with
  | none => exact hpayload
  | some payloadBytes =>
    obtain ⟨hpayload, rfl⟩ := hpayload
    refine .bind ((works_passGate hpayload check.2).weaken ?_)
    intro outcome g hgated
    cases outcome with
    | finished releases => exact works_release hgated.1 hgated.2
    | passed msg' releases nextCheck =>
      obtain ⟨hopen, hfit⟩ := hgated
      refine .bind ((works_dispatch hopen nextCheck).weaken ?_)
      exact fun _ g' hclosed => works_release hclosed hfit

end Rules

/-! ### Paths -/

/-- What has happened after a path. -/
abbrev Progress.after (g : Progress) (tr : List (Sigma Action.Reply)) : Progress :=
  Prog.after (fun a r g => g.enter a r) tr g

/-- Every action of the path is performed where it is allowed. -/
def HeededAlong (w : Worker) (msg : Message) (g : Progress) (tr : List (Sigma Action.Reply)) :
    Prop :=
  ∀ tr₁ a r tr₂, tr = tr₁ ++ ⟨a, r⟩ :: tr₂ → Heeded w msg a (g.after tr₁)

section Paths

variable {w : Worker} {msg : Message} {g : Progress} {tr : List (Sigma Action.Reply)}

lemma after_concat (g : Progress) (tr : List (Sigma Action.Reply)) (e : Sigma Action.Reply) :
    g.after (tr ++ [e]) = (g.after tr).enter e.1 e.2 := foldl_concat ..

lemma after_puts (g : Progress) (tr : List (Sigma Action.Reply)) :
    (g.after tr).puts = g.puts + (puts tr).length := by
  induction tr using reverseRecOn with
  | nil => rfl
  | append_singleton tr e ih =>
    rw [after_concat]
    cases hput : e.1.put e.2 <;> simp [enter, ih, puts, hput, add_assoc]

lemma after_sends (g : Progress) (tr : List (Sigma Action.Reply)) :
    (g.after tr).sends = g.sends + sends tr := by
  induction tr using reverseRecOn with
  | nil => rfl
  | append_singleton tr e ih =>
    rw [after_concat]
    simp [enter, ih, sends, countP_singleton, add_assoc]

lemma after_opened (g : Progress) (tr : List (Sigma Action.Reply)) :
    (g.after tr).opened = openedAfter g.opened tr := by
  induction tr using reverseRecOn with
  | nil => rfl
  | append_singleton tr e ih =>
    rw [after_concat, openedAfter, foldl_concat, ← openedAfter, ← ih]
    rfl

lemma after_labels (g : Progress) (tr : List (Sigma Action.Reply)) :
    (g.after tr).labels = labelsAfter g.labels tr := by
  induction tr using reverseRecOn with
  | nil => rfl
  | append_singleton tr e ih =>
    rw [after_concat, labelsAfter, foldl_concat, ← labelsAfter, ← ih]
    rfl

lemma Undisturbed.after_ended (h : Undisturbed tr) (g : Progress) :
    (g.after tr).ended = g.ended := by
  induction tr using reverseRecOn with
  | nil => rfl
  | append_singleton tr e ih =>
    have he : e.1.ended e.2 = false := h e (by simp)
    rw [after_concat, ← ih fun e' he' => h e' (mem_append_left _ he')]
    simp [enter, he]

lemma HeededAlong.of_append {tr' : List (Sigma Action.Reply)}
    (h : HeededAlong w msg g (tr ++ tr')) : HeededAlong w msg g tr := by
  intro tr₁ a r tr₂ heq
  exact h tr₁ a r (tr₂ ++ tr') (by simp [heq])

lemma HeededAlong.last {e : Sigma Action.Reply} (h : HeededAlong w msg g (tr ++ [e])) :
    Heeded w msg e.1 (g.after tr) := h tr e.1 e.2 [] rfl

lemma HeededAlong.sends_le (h : HeededAlong w msg g tr) (hg : g.sends = 0) : sends tr ≤ 1 := by
  induction tr using reverseRecOn with
  | nil => exact Nat.zero_le 1
  | append_singleton tr e ih =>
    have hcount : sends (tr ++ [e]) = sends tr + if e.1.isSend then 1 else 0 := by
      simp [sends, countP_singleton]
    obtain ⟨a, r⟩ := e
    have hlast := h.last
    cases a with
    | send =>
      have hbefore : (g.after tr).sends = 0 := hlast.1.1
      rw [after_sends, hg, zero_add] at hbefore
      rw [hcount, hbefore]
      rfl
    | _ => exact hcount.trans_le (ih h.of_append)

lemma HeededAlong.labels (h : HeededAlong w msg g tr) :
    SameLabels g.labels (g.after tr).labels := by
  induction tr using reverseRecOn with
  | nil => exact .refl _
  | append_singleton tr e ih =>
    rw [after_concat]
    obtain ⟨a, r⟩ := e
    have hlast := h.last
    cases a with
    | gateReturned => exact (ih h.of_append).trans hlast
    | _ => exact ih h.of_append

/-- No transform handles the message. -/
def Untransformed (tr : List (Sigma Action.Reply)) : Prop :=
  ∀ e ∈ tr, e.1.handles e.2 none = none

lemma Untransformed.after_handled (h : Untransformed tr) (hg : g.handled = none) :
    (g.after tr).handled = none := by
  induction tr using reverseRecOn with
  | nil => exact hg
  | append_singleton tr e ih =>
    have hbefore := ih fun e' he' => h e' (mem_append_left _ he')
    rw [after_concat]
    have he : e.1.handles e.2 none = none := h e (by simp)
    change e.1.handles e.2 (g.after tr).handled = none
    rwa [hbefore]

lemma works_balanced {p : Code Unit} (hp : Works w msg p (fun _ g' => Closed [] g') g)
    (hg : g.ledger = .of []) {u : Unit} (hpath : p.Path tr u) :
    FlowControl.taken (gateSteps tr) = FlowControl.released (gateSteps tr) := by
  have hcons : ∀ a r tr (g g' : Progress), Heeded w msg a g →
      FlowControl.Balanced (gateSteps tr) (g.enter a r).ledger g'.ledger →
      FlowControl.Balanced (gateSteps (⟨a, r⟩ :: tr)) g.ledger g'.ledger := by
    intro a r tr g g' ha htr
    cases a with
    | gate a => exact htr.cons ha
    | _ => exact htr
  obtain ⟨g', hclosed, hbalance⟩ := Prog.Follows.path
    (J := fun tr (g g' : Progress) => FlowControl.Balanced (gateSteps tr) g.ledger g'.ledger)
    (fun g => .nil g.ledger) hcons hp hpath
  have hown := hbalance.own
  rw [hg, hclosed.ledger] at hown
  exact add_left_cancel hown

lemma processMessage_heeded {u : Unit} (hpath : (w.processMessage msg).Path tr u) :
    HeededAlong w msg (.start w msg) tr := (Prog.Follows.along (works_processMessage w msg) hpath).2

lemma processMessage_sends_payload {u : Unit} (hpath : (w.processMessage msg).Path tr u)
    (hplain : Untransformed tr) {url : String} {headers : List (String × String)} {payload : Bytes}
    {reply : SendReply} (hmem : ⟨.send url headers payload, reply⟩ ∈ tr) :
    payload = msg.payloadBytes := by
  obtain ⟨tr₁, tr₂, heq⟩ := append_of_mem hmem
  have hsend : Heeded w msg (.send url headers payload) ((start w msg).after tr₁) :=
    processMessage_heeded hpath tr₁ (.send url headers payload) reply tr₂ heq
  have hbefore : Untransformed tr₁ := fun e he => hplain e (heq ▸ mem_append_left _ he)
  have hhandled : ((start w msg).after tr₁).handled = none := hbefore.after_handled rfl
  have hout := hsend.2
  rw [hhandled] at hout
  exact (Prod.mk.inj hout).2

lemma processMessage_repeats {u : Unit} (hpath : (w.processMessage msg).Path tr u)
    {m : RetryMessage} (hmem : .retry m ∈ puts tr) :
    ∃ labels, (msg.relabelled labels).Repeats m.msg := by
  obtain ⟨⟨a, r⟩, he, hput⟩ := mem_filterMap.mp hmem
  obtain ⟨tr₁, tr₂, heq⟩ := append_of_mem he
  have hallowed := processMessage_heeded hpath tr₁ a r tr₂ heq
  cases a with
  | putRetry m' =>
    obtain rfl : m' = m := by simpa [put] using hput
    exact ⟨_, hallowed⟩
  | offerRetry m' =>
    have hm : r = true ∧ m' = m := by simpa [put] using hput
    obtain rfl := hm.2
    exact ⟨_, hallowed⟩
  | offerResult => simp [put] at hput
  | _ => cases hput

/-- **One outcome.**  On every way through `processMessage`, whatever the gate, the checker, the
transforms and the client answer: if `requestCtx` is not cancelled, one message is put on the retry
channel or the result channel; results carry the id of the message and its routing, in which only
gates have changed a label; the request is sent at most once, and only if the gate has let it
through; and every reservation of the gate is released once. -/
theorem processMessage_one_outcome (w : Worker) (msg : Message) (tr : List (Sigma Action.Reply))
    (u : Unit) (hpath : (w.processMessage msg).Path tr u) :
    (Undisturbed tr → (puts tr).length = 1) ∧
      (∀ tr₁ r sent tr₂, tr = tr₁ ++ ⟨.offerResult r, sent⟩ :: tr₂ →
        Carries msg (labelsAfter msg.routing.labels tr₁) r ∧
        SameLabels msg.routing.labels (labelsAfter msg.routing.labels tr₁)) ∧
      sends tr ≤ 1 ∧
      (∀ tr₁ a r tr₂, tr = tr₁ ++ ⟨a, r⟩ :: tr₂ → a.isSend = true →
        openedAfter w.poolGate.isNone tr₁ = true) ∧
      FlowControl.taken (gateSteps tr) = FlowControl.released (gateSteps tr) := by
  have hworks := works_processMessage w msg
  have hclosed := (Prog.Follows.along hworks hpath).1
  have hheeded := processMessage_heeded hpath
  refine ⟨fun hquiet => ?_, ?_, hheeded.sends_le rfl, ?_, works_balanced hworks rfl hpath⟩
  · have hputs := after_puts (.start w msg) tr
    rcases hclosed.puts with hended | hone
    · rw [hquiet.after_ended] at hended
      cases hended
    · rw [hone] at hputs
      exact (hputs.trans (zero_add _)).symm
  · intro tr₁ r sent tr₂ heq
    have hcarries : Carries msg ((start w msg).after tr₁).labels r :=
      (hheeded tr₁ _ sent tr₂ heq).1
    have hlabels : SameLabels msg.routing.labels ((start w msg).after tr₁).labels := by
      rw [heq] at hheeded
      exact hheeded.of_append.labels
    rw [after_labels] at hcarries hlabels
    exact ⟨hcarries, hlabels⟩
  · intro tr₁ a r tr₂ heq hsend
    have hallowed := hheeded tr₁ a r tr₂ heq
    cases a with
    | send => exact (after_opened _ _).symm.trans hallowed.1.2
    | _ => cases hsend

end Paths

/-! ### A message that is sent -/

/-- A worker with a gate for one request at a time. -/
def gatedWorker : Worker :=
  ⟨5 * second, 0, false, some (.localConcurrency 0), fun _ => ⟨1, .blocking⟩, id⟩

/-- A message with a deadline after 100 seconds. -/
def shortMessage : Message :=
  ⟨"m", 100, [0x7b, 0x7d], .empty, ⟨0, "", "", 1, "in", "out", 0, true, "", 0, "", .empty⟩, [],
    "/v1"⟩

def shortResult : ResultMessage := newHTTPResult shortMessage ⟨200, "done"⟩

/-- What the worker does before the gate. -/
def checkedPath : List (Sigma Action.Reply) :=
  [⟨.now, (10 : ℤ)⟩, ⟨.now, (10 : ℤ)⟩, ⟨.validate [0x7b, 0x7d] .empty 100, none⟩]

def gatePath : List (Sigma Action.Reply) :=
  [⟨.now, (10 : ℤ)⟩, ⟨.now, (10 : ℤ)⟩, ⟨.gate (.semSend 0), .ok 5⟩, ⟨.gate (.count 0 1), ()⟩,
    ⟨.gateReturned (.ok .proceed) .empty, ()⟩]

def dispatchPath : List (Sigma Action.Reply) :=
  [⟨.now, (10 : ℤ)⟩, ⟨.now, (10 : ℤ)⟩, ⟨.transform [0x7b, 0x7d] .empty, .ok none⟩,
    ⟨.now, (10 : ℤ)⟩, ⟨.send "/v1" [] [0x7b, 0x7d], ⟨.ok ⟨200, "done"⟩, false⟩⟩,
    ⟨.offerResult shortResult, true⟩]

def releasePath : List (Sigma Action.Reply) :=
  [⟨.gate (.semReceive ⟨5, .sem 0⟩), ()⟩, ⟨.gate (.count 0 (-1)), ()⟩]

/-- What the worker does with the message. -/
def sentPath : List (Sigma Action.Reply) :=
  checkedPath ++ (gatePath ++ (dispatchPath ++ releasePath))

lemma gatePath_path : (gatedWorker.passGate shortMessage none).Path gatePath
    (.passed shortMessage [⟨5, .sem 0⟩] none) := by
  have hloop : (gatedWorker.gateLoop (.localConcurrency 0)
      (gatedWorker.gateDeadline shortMessage 10) 0 10 shortMessage [] none).Path gatePath.tail
      (.passed shortMessage [⟨5, .sem 0⟩] none) := by
    rw [gateLoop]
    exact .act _ (.act _ (.act _ (.act _ (.done _))))
  exact .act _ hloop

lemma dispatchPath_path :
    (gatedWorker.dispatch shortMessage [0x7b, 0x7d] none).Path dispatchPath () :=
  .act _ (.act _ (.act _ (.act _ (.act _ (.act _ (.done _))))))

lemma releasePath_path : (releaseGateReleases [⟨5, .sem 0⟩]).Path releasePath () :=
  .act _ (.act _ (.done _))

lemma sentPath_path : (gatedWorker.processMessage shortMessage).Path sentPath () :=
  .act _ (.act _ (.act _ (gatePath_path.bind (dispatchPath_path.bind releasePath_path))))

/-- The message is sent behind the gate, its result is put, and the place in the gate is given
back. -/
theorem sentPath_one_outcome : (puts sentPath).length = 1 ∧ sends sentPath = 1 ∧
    FlowControl.taken (gateSteps sentPath) = {⟨5, .sem 0⟩} ∧
    FlowControl.released (gateSteps sentPath) = {⟨5, .sem 0⟩} := by
  obtain ⟨hputs, -, -, -, hbalance⟩ :=
    processMessage_one_outcome gatedWorker shortMessage sentPath () sentPath_path
  have hquiet : Undisturbed sentPath := by
    unfold Undisturbed
    decide
  exact ⟨hputs hquiet, rfl, rfl, hbalance ▸ rfl⟩

end LlmdAsync.AsyncWorker
