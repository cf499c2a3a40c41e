import LlmdAsync.SqlFlow.Poll

/-!
# Polls and the slots of their gate

A queue of the sql transport whose gate is a local gate in blocking mode.  The loop of a poll, the
goroutines it starts and requests that were dispatched before share the slots of the gate.  The loop
takes the outcomes in the order of the rows, but the goroutines take slots in any order: a row can
only be dispatched, and its slot be given back, after all rows before it.
-/

namespace LlmdAsync.SqlFlow

open List
open SqlQueue (Stamp Time)
open FlowControl (GateAction GateReturn Gate Hold LocalGate)

/-! ### Threads -/

/-- What the threads of a poll share. -/
structure PollState where
  /-- Who holds the slots of the gate: rows of this poll, by number, or requests of earlier
  polls. -/
  slots : List (Option ℕ)
  inFlight : ℤ
  /-- The rows whose goroutines have been started. -/
  spawned : List (ℕ × InternalRequest)
  /-- The outcomes that goroutines have sent. -/
  delivered : List (ℕ × GateReturn)
  /-- The rows whose outcomes the loop has received. -/
  received : List ℕ
  /-- `activeReleases`. -/
  activeReleases : Stamp → List Hold

namespace PollState

def init (others : ℕ) (inFlight : ℤ) : PollState :=
  ⟨List.replicate others none, inFlight, [], [], [], fun _ => []⟩

def rows (s : PollState) : List ℕ := s.spawned.map Prod.fst

/-- The rows whose outcomes have been sent. -/
def answered (s : PollState) : List ℕ := s.delivered.map Prod.fst

/-- The rows of this poll that hold slots. -/
def holders (s : PollState) : List ℕ := s.slots.filterMap id

/-- How many slots are held by rows after this one. -/
def heldAfter (s : PollState) (i : ℕ) : ℕ := s.holders.countP fun j => decide (i < j)

end PollState

inductive PollChoice where
  /-- The action takes effect; a channel is ready. -/
  | go
  /-- The context ends first. -/
  | ended (e : String)
  | rows (rows : List SqlQueue.Request)
  /-- A statement fails. -/
  | failed
  | pending (b : Bool)
  | time (t : Time)

/-- What happens outside of the poll. -/
inductive PollEvent where
  /-- A request of an earlier poll gives its slot back. -/
  | freed
  /-- A row of this poll that the loop is done with gives its slot back. -/
  | finished (i : ℕ)
  /-- Requests that the loop is done with change `inFlight`. -/
  | counted (d : ℤ)

abbrev Thread := Option ℕ

/-- `Budget` of the gate. -/
def budget (limit : ℕ) (inFlight : ℤ) : ℚ :=
  if limit = 0 ∨ limit ≤ inFlight then 0 else (limit - inFlight : ℚ) / limit

section System

variable (f : Flow) (cfg : QueueConfig) (limit : ℕ)

def queueGate (_ : ℕ) : LocalGate := ⟨limit, .blocking⟩

/-- What the loop does. -/
def execLoop : (a : Action) → PollChoice → PollState → Option (a.Reply × PollState)
  | .budget, .go, s => some (budget limit s.inFlight, s)
  | .hasRequests, .pending b, s => some (some b, s)
  | .hasRequests, .failed, s => some (none, s)
  | .poll _ n, .rows rs, s => if rs.length ≤ n then some (some rs, s) else none
  | .poll .., .failed, s => some (none, s)
  | .now, .time t, s => some (t, s)
  | .spawn i ir, .go, s => some ((), { s with spawned := s.spawned ++ [(i, ir)] })
  | .receive i, .go, s =>
    (s.delivered.find? fun d => d.1 = i).map fun d =>
      (d.2, { s with received := s.received ++ [i] })
  | .emit _, .go, s => some (true, s)
  | .emit _, .ended _, s => some (false, s)
  | .sendRequest _, .go, s => some (true, s)
  | .sendRequest _, .ended _, s => some (false, s)
  | .swapReleases stamp rel, .go, s =>
    some (s.activeReleases stamp,
      { s with activeReleases := Function.update s.activeReleases stamp rel })
  | .takeReleases stamp, .go, s =>
    some (s.activeReleases stamp,
      { s with activeReleases := Function.update s.activeReleases stamp [] })
  | .undispatch _, .go, s => some ((), s)
  | .defer .., .go, s => some ((), s)
  | .gate (.semReceive h), .go, s =>
    if s.slots = [] then none else some ((), { s with slots := s.slots.erase (some h.id) })
  | .gate (.count _ d), .go, s => some ((), { s with inFlight := s.inFlight + d })
  | _, _, _ => none

/-- What the goroutine of a row does. -/
def execRoutine (i : ℕ) : (a : Action) → PollChoice → PollState → Option (a.Reply × PollState)
  | .gate (.semSend _), .go, s =>
    if s.slots.length < limit then some (.ok i, { s with slots := s.slots ++ [some i] }) else none
  | .gate (.semSend _), .ended e, s => some (.error e, s)
  | .gate (.count _ d), .go, s => some ((), { s with inFlight := s.inFlight + d })
  | .deliver _ out, .go, s => some ((), { s with delivered := s.delivered ++ [(i, out)] })
  | _, _, _ => none

def exec : Thread → (a : Action) → PollChoice → PollState → Option (a.Reply × PollState)
  | none => execLoop limit
  | some i => execRoutine limit i

/-- The loop runs polls until rows reach the gate; the goroutine of a row runs once. -/
def startable (s : PollState) : Thread → Bool
  | none => decide (s.rows = [])
  | some i => decide (i ∈ s.rows ∧ i ∉ s.answered)

def program : Thread → InternalRequest → Code Unit
  | none, _ => processQueue f cfg
  | some i, ir => gateRoutine (queueGate limit) (.localConcurrency 0) i ir

/-- What happens outside of the poll. -/
def PollEvent.apply : PollEvent → PollState → Option PollState
  | .freed, s => some { s with slots := s.slots.erase none }
  | .finished i, s =>
    if i ∈ s.received then some { s with slots := s.slots.erase (some i) } else none
  | .counted d, s => some { s with inFlight := s.inFlight + d }

/-- A poll, its goroutines and the requests that hold slots.  A goroutine is started with a request,
which the gate does not look at. -/
def pollSystem : ThreadSystem Action Action.Reply Thread PollState PollChoice InternalRequest
    PollEvent where
  exec := exec limit
  program := program f cfg limit
  starts t _ s := startable s t
  env := PollEvent.apply
  kills _ _ := false

end System

/-- The row whose outcome the loop waits for. -/
def loopWaits (P : Pool Action Action.Reply Thread PollState) : Option ℕ :=
  match P.prog none with
  | some (.act (.receive i) _) => some i
  | _ => none

lemma loopWaits_eq {P : Pool Action Action.Reply Thread PollState} {i : ℕ}
    (h : loopWaits P = some i) : ∃ k, P.prog none = some (.act (.receive i) k) := by
  unfold loopWaits at h
  split at h
  next j k hprog =>
    cases h
    exact ⟨k, hprog⟩
  · cases h

/-! ### The loop -/

/-- Rows are started in order, and only outcomes of started rows are received. -/
def LoopPre : Action → List ℕ → Prop
  | .spawn i _, started => ∀ j ∈ started, j < i
  | .receive i, started => i ∈ started
  | _, _ => True

/-- The rows that have been started. -/
def loopUpd : (a : Action) → a.Reply → List ℕ → List ℕ
  | .spawn i _, _, started => started ++ [i]
  | _, _, started => started

/-- The code starts rows in order and only waits for rows it has started. -/
abbrev LoopFollows {α : Type} (p : Code α) (Q : α → List ℕ → Prop) (started : List ℕ) : Prop :=
  p.Follows LoopPre loopUpd Q started

variable {f : Flow} {cfg : QueueConfig}

/-- The action neither starts a goroutine nor waits for one. -/
def Action.Plain : Action → Prop
  | .spawn .. => False
  | .receive _ => False
  | _ => True

lemma ofGate_plain {α : Type} (p : FlowControl.GateCode α) : (ofGate p).Always Action.Plain :=
  Prog.always_embed (fun _ => trivial) p

lemma call_plain {a : Action} (h : a.Plain) : (call a).Always Action.Plain :=
  Prog.always_perform.mpr h

lemma emit_plain (row : SqlQueue.Request) (result : ResultMessage) (back : PollReturns) :
    (emit row result back).Always Action.Plain :=
  .bind (call_plain trivial) fun _ => .pure

lemma admit_plain (row : SqlQueue.Request) (ir : InternalRequest) (releases : List Hold)
    (back : PollReturns) : (admitRow row ir releases back).Always Action.Plain := by
  refine .bind ?_ fun _ => .bind (call_plain trivial) fun sent => ?_
  · split
    · exact .pure
    · exact .bind (call_plain trivial) fun _ => ofGate_plain _
  · split
    · exact .pure
    · refine .bind (.bind (call_plain trivial) fun _ => ofGate_plain _) fun _ => ?_
      exact .pure

lemma dispatchGated_plain (row : SqlQueue.Request) (ir : InternalRequest) (out : GateReturn)
    (back : PollReturns) : (dispatchGated row ir out back).Always Action.Plain := by
  unfold dispatchGated
  split
  · exact .bind (ofGate_plain _) fun _ => .pure
  · split
    · exact .bind (ofGate_plain _) fun _ => .pure
    · exact .bind (ofGate_plain _) fun _ => emit_plain _ _ _
    · exact admit_plain _ _ _ _

lemma giveBack_plain (back : PollReturns) : (giveBack f back).Always Action.Plain := by
  refine .bind ?_ fun _ => ?_
  · split
    · exact .pure
    · exact call_plain trivial
  · split
    · exact .pure
    · exact .bind (call_plain trivial) fun _ => call_plain trivial

lemma LoopFollows.of_plain {α : Type} {p : Code α} (hp : p.Always Action.Plain)
    (started : List ℕ) : LoopFollows p (fun _ started' => started' = started) started := by
  refine .of_always (fun a ha g => ?_) hp started
  cases a with
  | spawn i ir | receive i => exact ha.elim
  | _ => exact ⟨trivial, fun _ => rfl⟩

/-- The entries of a poll wait for goroutines that have been started. -/
def Covered (es : List Polled) (started : List ℕ) : Prop := ∀ e ∈ es, ∀ i ∈ e.gated, i ∈ started

lemma startGates_follows (now : ℤ) {i : ℕ} (rows : List SqlQueue.Request) {started : List ℕ}
    (hlt : ∀ j ∈ started, j < i) :
    LoopFollows (startGates f cfg now i rows)
      (fun es started' => started ⊆ started' ∧ Covered es started') started := by
  induction rows generalizing i started with
  | nil => exact ⟨List.Subset.refl _, nofun⟩
  | cons row rows ih =>
    have hrest : ∀ (e : Polled) (started' : List ℕ), started ⊆ started' →
        (∀ j ∈ started', j < i + 1) → (∀ j ∈ e.gated, j ∈ started') →
        LoopFollows (do let es ← startGates f cfg now (i + 1) rows; pure (e :: es))
          (fun es started'' => started ⊆ started'' ∧ Covered es started'') started' := by
      intro e started' hsub hlt' he
      refine .bind ((ih hlt').weaken ?_)
      rintro es started'' ⟨hsub', hes⟩
      refine ⟨List.Subset.trans hsub hsub', fun e' he' j hj => ?_⟩
      rcases mem_cons.mp he' with rfl | he'
      · exact hsub' (he j hj)
      · exact hes e' he' j hj
    have hlt' : ∀ j ∈ started, j < i + 1 := fun j hj => (hlt j hj).trans (Nat.lt_succ_self i)
    rw [startGates]
    cases rowRequest f cfg row with
    | none => exact hrest _ started (List.Subset.refl _) hlt' (by simp)
    | some ir =>
      by_cases hexpired : row.deadline < now
      · simp only [hexpired, ↓reduceIte]
        exact hrest _ started (List.Subset.refl _) hlt' (by simp)
      · by_cases hcancelled : row.cancelled = true
        · simp only [hexpired, hcancelled, ↓reduceIte]
          exact hrest _ started (List.Subset.refl _) hlt' (by simp)
        · simp only [hexpired, hcancelled, ↓reduceIte]
          refine ⟨hlt, fun _ => ?_⟩
          refine hrest _ (started ++ [i]) (subset_append_left _ _) ?_ (by simp)
          intro j hj
          rcases mem_append.mp hj with hj | hj
          · exact hlt' j hj
          · rw [mem_singleton.mp hj]
            exact Nat.lt_succ_self i

lemma dispatchPolled_follows {e : Polled} {started : List ℕ} (he : ∀ i ∈ e.gated, i ∈ started)
    (back : PollReturns) :
    LoopFollows (dispatchPolled cfg e back) (fun _ started' => started' = started) started := by
  unfold dispatchPolled
  split
  · exact .of_plain (emit_plain _ _ _) _
  · split
    · exact .of_plain (emit_plain _ _ _) _
    · split
      · exact .of_plain (emit_plain _ _ _) _
      next i hi =>
        exact ⟨he i hi, fun out => LoopFollows.of_plain (dispatchGated_plain _ _ _ _) _⟩

lemma abandonRest_follows {es : List Polled} {started : List ℕ} (hes : Covered es started)
    (back : PollReturns) :
    LoopFollows (abandonRest es back) (fun _ started' => started' = started) started := by
  induction es generalizing back with
  | nil => exact rfl
  | cons e es ih =>
    have hrest := ih (fun e' he' => hes e' (mem_cons_of_mem e he')) (back.addNow e.row.stamp)
    refine .bind ?_
    cases hgated : e.gated with
    | none => exact hrest
    | some i =>
      refine ⟨hes e mem_cons_self i hgated, fun out => ?_⟩
      refine (LoopFollows.of_plain (ofGate_plain _) started).weaken fun _ started' h => ?_
      rw [h]
      exact hrest

lemma dispatchAll_follows {es : List Polled} {started : List ℕ} (hes : Covered es started)
    (back : PollReturns) :
    LoopFollows (dispatchAll cfg es back) (fun _ started' => started' = started) started := by
  induction es generalizing back with
  | nil => exact rfl
  | cons e es ih =>
    have hes' : Covered es started := fun e' he' => hes e' (mem_cons_of_mem e he')
    have hhead := @dispatchPolled_follows cfg e started (hes e mem_cons_self) back
    refine .bind (hhead.weaken ?_)
    rintro ⟨more, back'⟩ started' rfl
    cases more with
    | true => exact ih hes' back'
    | false => exact abandonRest_follows hes' back'

lemma processQueue_follows : LoopFollows (processQueue f cfg) (fun _ _ => True) [] := by
  refine .step trivial fun budget => ?_
  change LoopFollows (if ⌊(f.batchSize : ℚ) * budget⌋ ≤ 0 then _ else _) _ _
  split
  · exact .step trivial fun _ => trivial
  · refine .step trivial fun _ => Prog.Follows.step trivial fun answer => ?_
    cases answer with
    | none => exact trivial
    | some rows =>
      refine .step trivial fun now => ?_
      refine .bind ((startGates_follows _ rows ?_).weaken ?_)
      · exact fun j hj => absurd hj not_mem_nil
      · rintro entries started ⟨-, hcovered⟩
        refine .bind ((dispatchAll_follows hcovered _).weaken ?_)
        rintro back started' -
        exact (LoopFollows.of_plain (giveBack_plain back) started').weaken fun _ _ _ => trivial

/-! ### Slots -/

/-- Rows that hold slots have been started, and none holds two. -/
structure PollState.Sound (s : PollState) : Prop where
  rows : s.rows.Nodup
  holders : s.holders.Nodup
  started : s.holders ⊆ s.rows

/-- What the loop does: start the rows that its ghost state says, and give slots back. -/
structure LoopStep (s s' : PollState) (rows : List ℕ) : Prop where
  rows : s'.rows = rows
  delivered : s'.delivered = s.delivered
  slots : s'.slots.Sublist s.slots

lemma LoopStep.same {s s' : PollState} (hspawned : s'.spawned = s.spawned)
    (hdelivered : s'.delivered = s.delivered) (hslots : s'.slots = s.slots) :
    LoopStep s s' s.rows :=
  ⟨by rw [PollState.rows, hspawned, PollState.rows], hdelivered, by rw [hslots]⟩

lemma exec_loop {limit : ℕ} {a : Action} {c : PollChoice} {s s' : PollState} {r : a.Reply}
    (h : exec limit none a c s = some (r, s')) : LoopStep s s' (loopUpd a r s.rows) := by
  simp only [exec] at h
  cases a with
  | spawn i ir =>
    cases c with
    | go =>
      cases h
      exact ⟨by simp [PollState.rows, loopUpd], rfl, List.Sublist.refl _⟩
    | _ => cases h
  | receive i =>
    cases c with
    | go =>
      obtain ⟨d, -, hd⟩ := Option.map_eq_some_iff.mp h
      cases hd
      exact .same rfl rfl rfl
    | _ => cases h
  | poll now n =>
    cases c with
    | rows rs =>
      simp only [execLoop] at h
      split at h
      · cases h
        exact .same rfl rfl rfl
      · cases h
    | failed =>
      cases h
      exact .same rfl rfl rfl
    | _ => cases h
  | gate a =>
    cases a with
    | semReceive hold =>
      cases c with
      | go =>
        simp only [execLoop] at h
        split at h
        · cases h
        · cases h
          exact ⟨rfl, rfl, erase_sublist⟩
      | _ => cases h
    | count gate d =>
      cases c with
      | go =>
        cases h
        exact .same rfl rfl rfl
      | _ => cases h
    | _ => cases c <;> cases h
  | deliver i out => cases c <;> cases h
  | _ => cases c <;> cases h <;> exact .same rfl rfl rfl

lemma LoopStep.sound {s s' : PollState} {rows : List ℕ} (h : LoopStep s s' rows) (hs : s.Sound)
    (hnodup : rows.Nodup) (hsub : s.rows ⊆ rows) : s'.Sound := by
  have hholders : s'.holders.Sublist s.holders := h.slots.filterMap id
  refine ⟨h.rows ▸ hnodup, hs.holders.sublist hholders, fun j hj => ?_⟩
  rw [h.rows]
  exact hsub (hs.started (hholders.subset hj))

lemma loopUpd_nodup {a : Action} {r : a.Reply} {started : List ℕ} (ha : LoopPre a started)
    (h : started.Nodup) : (loopUpd a r started).Nodup ∧ started ⊆ loopUpd a r started := by
  cases a with
  | spawn i ir =>
    refine ⟨h.append (nodup_singleton i) ?_, subset_append_left _ _⟩
    intro j hj hi
    rw [mem_singleton.mp hi] at hj
    exact (ha i hj).false
  | _ => exact ⟨h, List.Subset.refl _⟩

/-- What a thread relies on.  The loop alone starts rows; the goroutine of a row alone takes a slot
for it and sends its outcome. -/
def PollRely : Thread → PollState → PollState → Prop
  | none, s, s' => s'.rows = s.rows
  | some i, s, s' => s.rows ⊆ s'.rows ∧ (i ∈ s'.answered ↔ i ∈ s.answered) ∧
      (i ∈ s'.holders → i ∈ s.holders)

instance (t : Thread) : IsPreorder PollState (PollRely t) where
  refl s := by
    cases t with
    | none => exact rfl
    | some i => exact ⟨List.Subset.refl _, Iff.rfl, fun h => h⟩
  trans s₁ s₂ s₃ h h' := by
    cases t with
    | none => exact Eq.trans h' h
    | some i =>
      exact ⟨List.Subset.trans h.1 h'.1, h'.2.1.trans h.2.1, fun hi => h.2.2 (h'.2.2 hi)⟩

/-- A row whose outcome has not been sent holds no slot while its goroutine does not run. -/
def PollIdle : Thread → PollState → Prop
  | none, _ => True
  | some i, s => i ∉ s.answered → i ∉ s.holders

/-- The loop takes only outcomes of rows that it has started. -/
def LoopGuard : Thread → Action → PollState → Prop
  | none, a, s => LoopPre a s.rows
  | some _, _, _ => True

/-- The goroutines and the loop are safe in this sense. -/
abbrev PollSafe (f : Flow) (cfg : QueueConfig) (limit : ℕ) {α : Type} (t : Thread) (p : Code α)
    (Q : α → PollState → Prop) (s : PollState) : Prop :=
  (pollSystem f cfg limit).Safe .free PollState.Sound PollRely LoopGuard t p Q s

lemma spares_of_sublist {s s' : PollState} (hs : s.Sound) (hspawned : s'.spawned = s.spawned)
    (hdelivered : s'.delivered = s.delivered) (hslots : s'.slots.Sublist s.slots) :
    ThreadSystem.Spares PollState.Sound PollRely s s' := by
  have hrows : s'.rows = s.rows := by rw [PollState.rows, hspawned, PollState.rows]
  have hanswered : s'.answered = s.answered := by
    rw [PollState.answered, hdelivered, PollState.answered]
  have hholders : s'.holders.Sublist s.holders := hslots.filterMap id
  refine ⟨⟨hrows ▸ hs.rows, hs.holders.sublist hholders, ?_⟩, fun t => ?_⟩
  · rw [hrows]
    exact List.Subset.trans hholders.subset hs.started
  · cases t with
    | none => exact hrows
    | some i =>
      refine ⟨hrows ▸ List.Subset.refl _, by rw [hanswered], fun hi => hholders.subset hi⟩

lemma LoopStep.rely {s s' : PollState} {rows : List ℕ} (h : LoopStep s s' rows)
    (hsub : s.rows ⊆ rows) (i : ℕ) : PollRely (some i) s s' := by
  refine ⟨h.rows ▸ hsub, ?_, fun hi => (h.slots.filterMap id).subset hi⟩
  rw [PollState.answered, h.delivered, PollState.answered]

lemma loop_safe {limit : ℕ} {s : PollState} (hrows : s.rows = []) :
    PollSafe f cfg limit none (processQueue f cfg) (fun _ => PollIdle none) s := by
  have hfollows : LoopFollows (processQueue f cfg) (fun _ _ => True) [] := processQueue_follows
  refine (hfollows.safe (A := fun g s => s.rows = g) ?_ ?_ hrows).weaken fun _ _ _ => trivial
  · intro g s s' hA hR
    exact Eq.trans hR hA
  · rintro a g s₁ c r s₂ ha rfl hI - hexec
    have hstep := exec_loop hexec
    obtain ⟨hnodup, hsub⟩ := @loopUpd_nodup a r s₁.rows ha hI.rows
    refine ⟨ha, ⟨hstep.sound hI hnodup hsub, fun u hu => ?_⟩, hstep.rows⟩
    cases u with
    | none => exact absurd rfl hu
    | some i => exact hstep.rely hsub i

lemma deliver_safe {limit i : ℕ} (out : GateReturn) (s : PollState) :
    PollSafe f cfg limit (some i) (call (.deliver i out)) (fun _ => PollIdle (some i)) s := by
  intro s₁ c r s₂ _ hI _ hexec
  cases c with
  | go =>
    cases hexec
    refine ⟨trivial, ⟨⟨hI.rows, hI.holders, hI.started⟩, fun u hu => ?_⟩, ?_⟩
    · cases u with
      | none => exact rfl
      | some j =>
        have hj : j ≠ i := fun h => hu (congrArg some h)
        exact ⟨List.Subset.refl _, by simp [PollState.answered, hj], fun h => h⟩
    · exact fun h => absurd (by simp [PollState.answered]) h
  | _ => cases hexec

lemma taken_keeps {s : PollState} {i : ℕ} (hI : s.Sound) (hrow : i ∈ s.rows)
    (hfree : i ∉ s.holders) :
    ThreadSystem.Keeps PollState.Sound PollRely (some i) s
      { s with slots := s.slots ++ [some i] } := by
  have hholders : PollState.holders { s with slots := s.slots ++ [some i] } = s.holders ++ [i] := by
    simp [PollState.holders]
  refine ⟨⟨hI.rows, ?_, ?_⟩, fun u hu => ?_⟩
  · rw [hholders]
    exact hI.holders.append (nodup_singleton i) fun j hj hi =>
      hfree (mem_singleton.mp hi ▸ hj)
  · rw [hholders]
    exact append_subset.mpr ⟨hI.started, cons_subset.mpr ⟨hrow, nil_subset _⟩⟩
  · cases u with
    | none => exact rfl
    | some j =>
      have hj : j ≠ i := fun h => hu (congrArg some h)
      refine ⟨List.Subset.refl _, Iff.rfl, fun h => ?_⟩
      rw [hholders, mem_append] at h
      exact h.resolve_right (by simpa using hj)

lemma routine_safe {limit i : ℕ} (ir : InternalRequest) {s : PollState} (hrow : i ∈ s.rows)
    (hfree : i ∉ s.holders) :
    PollSafe f cfg limit (some i) (gateRoutine (queueGate limit) (.localConcurrency 0) i ir)
      (fun _ => PollIdle (some i)) s := by
  unfold gateRoutine
  rw [Gate.apply, LocalGate.apply]
  split
  · exact deliver_safe _ s
  · intro s₁ c r s₂ hR hI _ hexec
    cases c with
    | go =>
      simp only [pollSystem, exec, execRoutine] at hexec
      split at hexec
      · cases hexec
        refine ⟨trivial, taken_keeps hI (hR.1 hrow) fun h => hfree (hR.2.2 h), ?_⟩
        intro s₃ c' r' s₄ _ hI' _ hexec'
        cases c' with
        | go =>
          cases hexec'
          refine ⟨trivial, ThreadSystem.Spares.keeps ?_ _, deliver_safe _ _⟩
          exact spares_of_sublist hI' rfl rfl (List.Sublist.refl s₃.slots)
        | _ => cases hexec'
      · cases hexec
    | ended e =>
      cases hexec
      exact ⟨trivial, ThreadSystem.Spares.keeps (ThreadSystem.Spares.refl hI) _,
        deliver_safe _ _⟩
    | _ => cases hexec

lemma poll_safe {limit others : ℕ} {inFlight : ℤ} {P : Pool Action Action.Reply Thread PollState}
    (h : (pollSystem f cfg limit).Reachable .free (.init others inFlight) P) :
    P.state.Sound ∧ ∀ t, (pollSystem f cfg limit).ThreadSafe .free PollState.Sound PollRely
      LoopGuard PollIdle t P.state (P.prog t) := by
  refine And.imp_right And.left (ThreadSystem.Reachable.safe ?_ ?_ ?_ ?_ h)
  · intro t s s' hR hE
    cases t with
    | none => exact trivial
    | some i => exact fun hi hheld => hE (fun h => hi (hR.2.1.mpr h)) (hR.2.2 hheld)
  · refine ⟨⟨nodup_nil, ?_, ?_⟩, fun t => ?_⟩
    · simp [PollState.init, PollState.holders]
    · simp [PollState.init, PollState.holders]
    · cases t with
      | none => exact trivial
      | some i => simp [PollIdle, PollState.init, PollState.holders]
  · intro t ir s _ hE _ hstart
    cases t with
    | none => exact loop_safe (of_decide_eq_true hstart)
    | some i =>
      have hi : i ∈ s.rows ∧ i ∉ s.answered := of_decide_eq_true hstart
      exact routine_safe ir hi.1 (hE hi.2)
  · intro e s s' hI _ henv
    suffices hspares : ThreadSystem.Spares PollState.Sound PollRely s s' from
      ⟨hspares.1, fun t => by simpa [pollSystem] using hspares.2 t⟩
    cases e with
    | freed =>
      cases henv
      exact spares_of_sublist hI rfl rfl erase_sublist
    | finished i =>
      simp only [pollSystem, PollEvent.apply] at henv
      split at henv
      · cases henv
        exact spares_of_sublist hI rfl rfl erase_sublist
      · cases henv
    | counted d =>
      cases henv
      exact spares_of_sublist hI rfl rfl (List.Sublist.refl _)

lemma loop_waits_started {limit others : ℕ} {inFlight : ℤ}
    {P : Pool Action Action.Reply Thread PollState}
    (h : (pollSystem f cfg limit).Reachable .free (.init others inFlight) P) {i : ℕ}
    (hwait : loopWaits P = some i) :
    i ∈ P.state.rows := by
  obtain ⟨k, hprog⟩ := loopWaits_eq hwait
  obtain ⟨hsound, hsafe⟩ := poll_safe h
  have hloop := hsafe none
  rw [hprog] at hloop
  -- The guard speaks of the moment at which the outcome has been sent.
  let out : GateReturn := ⟨.ok .proceed, ⟨"", .empty, .empty⟩, []⟩
  let s : PollState := { P.state with delivered := [(i, out)] }
  have hexec : exec limit none (.receive i) .go s =
      some (out, { s with received := s.received ++ [i] }) := by
    simp [exec, execLoop, s]
  exact (hloop s .go _ _ rfl ⟨hsound.rows, hsound.holders, hsound.started⟩ trivial hexec).1

/-- Consider a queue whose gate is a local gate in blocking mode with any limit, and one poll of the
queue, under every schedule of its goroutines and of the requests that hold slots.  If no more rows
reach the gate than it has slots, then the loop never waits for the outcome of a row while all slots
are held by rows after it. -/
theorem poll_never_blocks_on_itself (f : Flow) (cfg : QueueConfig) (limit others : ℕ)
    (inFlight : ℤ) {P : Pool Action Action.Reply Thread PollState}
    (h : (pollSystem f cfg limit).Reachable .free (.init others inFlight) P) {i : ℕ}
    (hwait : loopWaits P = some i)
    (hrows : P.state.rows.length ≤ limit) : P.state.heldAfter i < limit := by
  obtain ⟨hsound, -⟩ := poll_safe h
  have hi := loop_waits_started h hwait
  have hsub : i :: P.state.holders.filter (fun j => decide (i < j)) ⊆ P.state.rows := by
    intro j hj
    rcases mem_cons.mp hj with rfl | hj
    · exact hi
    · exact hsound.started (mem_filter.mp hj).1
  have hnodup : (i :: P.state.holders.filter (fun j => decide (i < j))).Nodup := by
    refine nodup_cons.mpr ⟨fun hmem => ?_, hsound.holders.filter _⟩
    exact (of_decide_eq_true (mem_filter.mp hmem).2).false
  have hle := (subperm_of_subset hnodup hsub).length_le
  rw [length_cons] at hle
  rw [PollState.heldAfter, countP_eq_length_filter]
  omega

/-! ### A poll that waits for itself -/

/-- A flow whose envelopes all decode to the same request. -/
def plainFlow : Flow where
  batchSize := 10
  pollInterval := 1000000000
  decode _ _ := some ⟨"r", .empty, ⟨0, "", "", 0, "", "", 0, false, .empty⟩⟩

/-- A queue without labels and without a result queue. -/
def plainQueue : QueueConfig := ⟨"q", "queue", "", 0, []⟩

def plainRow (token : String) : SqlQueue.Request :=
  ⟨⟨"r", token⟩, "queue", 0, 1, 1, 100, "", [], false, 0⟩

def anyRequest : InternalRequest := ⟨"r", .empty, ⟨0, "", "", 0, "", "", 0, false, .empty⟩⟩

/-- A poll starts the goroutines of its rows. -/
def polledRows (rows : List SqlQueue.Request) :
    List (Label Thread PollChoice InternalRequest PollEvent) :=
  [.start none anyRequest, .act none .go, .act none (.time 0), .act none (.rows rows),
    .act none (.time 0)] ++ rows.map fun _ => .act none .go

/-- Two rows, and one slot.  The goroutine of the second row is faster. -/
def secondFirst : List (Label Thread PollChoice InternalRequest PollEvent) :=
  polledRows [plainRow "a", plainRow "b"] ++
    [.start (some 0) anyRequest, .start (some 1) anyRequest, .act (some 1) .go, .act (some 1) .go,
      .act (some 1) .go]

def secondFirstPool : Pool Action Action.Reply Thread PollState :=
  (pollSystem plainFlow plainQueue 1).run (ThreadSystem.idle (.init 0 0)) secondFirst

/-- The loop waits for the first row, whose goroutine waits for the slot that the second row holds.
Neither of them can go on. -/
theorem secondFirst_blocks_on_itself :
    (pollSystem plainFlow plainQueue 1).Reachable .free (.init 0 0) secondFirstPool ∧
      loopWaits secondFirstPool = some 0 ∧ secondFirstPool.state.slots = [some 1] ∧
      ¬ secondFirstPool.state.heldAfter 0 < 1 ∧
      ((pollSystem plainFlow plainQueue 1).next secondFirstPool (.act none .go)).isNone ∧
      ((pollSystem plainFlow plainQueue 1).next secondFirstPool (.act (some 0) .go)).isNone := by
  refine ⟨ThreadSystem.reachable_run _ _ _, ?_⟩
  decide +kernel

/-- One of the two slots is held by a request of an earlier poll. -/
def enoughSlots : Pool Action Action.Reply Thread PollState :=
  (pollSystem plainFlow plainQueue 2).run (ThreadSystem.idle (.init 1 1)) secondFirst

/-- With as many slots as rows there is always one left for the first row. -/
theorem enoughSlots_never_blocks :
    loopWaits enoughSlots = some 0 ∧ enoughSlots.state.rows.length ≤ 2 ∧
      enoughSlots.state.heldAfter 0 < 2 := by
  have hwait : loopWaits enoughSlots = some 0 := by decide +kernel
  have hrows : enoughSlots.state.rows.length ≤ 2 := by decide +kernel
  exact ⟨hwait, hrows, poll_never_blocks_on_itself plainFlow plainQueue 2 1 1
    (ThreadSystem.reachable_run _ _ _) hwait hrows⟩

end LlmdAsync.SqlFlow
