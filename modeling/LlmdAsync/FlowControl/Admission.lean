import LlmdAsync.PubSub.Receive
import LlmdAsync.Redis.Flow
import LlmdAsync.SqlFlow.Poll

/-!
# Queue gates and the three transports

What the sorted-set, the sql and the Pub/Sub flow make of the return of their queue gate: which
requests reach the request channel, and where the others go.  For every flow, first along every path
of a whole poll or callback, then for a single request that the gate does not let through.
-/

namespace LlmdAsync

open List Prog
open FlowControl (Gate GateReturn LocalGate)

/-- The gate has returned `ActionWait`. -/
def FlowControl.GateReturn.waits (r : GateReturn) : Bool :=
  match r.verdict with
  | .ok v => decide (v.action = .wait)
  | .error _ => false

lemma FlowControl.GateReturn.proceeds_or_waits {r : GateReturn} {v : FlowControl.Verdict}
    (hv : r.verdict = .ok v) (hrefuse : v.action ≠ .refuse) (hdrop : v.action ≠ .drop) :
    r.proceeds = true ∨ r.waits = true := by
  cases haction : v.action with
  | proceed => exact .inl (by simp [proceeds, hv, haction])
  | wait => exact .inr (by simp [waits, hv, haction])
  | refuse => exact absurd haction hrefuse
  | drop => exact absurd haction hdrop

lemma FlowControl.GateReturn.verdict_of_waits {r : GateReturn} (h : r.waits = true) :
    ∃ v, r.verdict = .ok v ∧ v.action = .wait := by
  unfold waits at h
  split at h
  next v hv => exact ⟨v, hv, of_decide_eq_true h⟩
  · cases h

/-! ### The sorted-set flow -/

namespace Redis

variable {M : Type}

/-- What the flow sees of the return of a gate. -/
def verdictOf (ir : InternalRequest) (r : GateReturn) : Option Verdict :=
  match r.verdict with
  | .error _ => none
  | .ok v => some (match v.action with
    | .proceed => .proceed
    | .drop => .drop (v.result.map fun d => ⟨d.id, 0, d.payload, "", "", ir.routing⟩)
    | .refuse => .refuse
    | .wait => .wait)

/-- The answer is what `Apply` of the gate returned for the request. -/
def Answers (locals : ℕ → LocalGate) (g : Gate) (ir : InternalRequest) (a : GateAnswer ir)
    (r : GateReturn) : Prop :=
  ∃ req tr, req.id = ir.id ∧ (g.apply locals req []).Path tr r ∧ a.verdict = verdictOf ir r

/-- The actions of a dispatcher and their answers. -/
abbrev Trace (M : Type) := List (Sigma (Action.Reply : Action M → Type))

/-- An earlier answer of the gate has let the request through. -/
def LetThrough (ir' : InternalRequest) (past : Trace M) : Prop :=
  ∃ ir, ∃ a : GateAnswer ir, ⟨.ask (.gate ir), a⟩ ∈ past ∧
    (a.verdict = some .proceed ∨ a.verdict = some .wait) ∧ ir'.id = ir.id ∧
    ir'.routing = { ir.routing with labels := a.labels }

/-- Requests are only sent after the gate has let them through. -/
def Admitted : Action M → Trace M → Prop
  | .sendRequest d, past => LetThrough d.ir past
  | _, _ => True

/-- The action is not a send on the request channel. -/
def Action.Silent : Action M → Prop
  | .sendRequest _ => False
  | _ => True

/-- The code only sends requests that the gate has let through. -/
abbrev Admits {α : Type} (p : Code M α) (Q : α → Trace M → Prop) (past : Trace M) : Prop :=
  p.Heeds Admitted Q past

section Silent

variable {N : Action M → Prop} (hredis : ∀ c, N (.redis c)) (hask : ∀ q, N (.ask q))

include hredis hask

lemma redis_always (c : Command M) : (redis c).Always N := by
  refine .step (hask _) fun n => ?_
  induction n with
  | zero => exact always_perform.mpr (hredis c)
  | succ n ih =>
    refine .step (hredis c) fun r => ?_
    cases r with
    | none => exact ih
    | some r => exact .pure

omit hredis in
lemma claimExpiry_always (cfg : FlowConfig) (deadline : ℤ) :
    (claimExpiry cfg deadline : Code M ℚ).Always N :=
  .step (hask _) fun _ => .pure

end Silent

lemma retryRedisOp_silent {α : Type} {fn : Code M (Option α)} (hfn : fn.Always Action.Silent)
    (n : ℕ) : (retryRedisOp fn n).Always Action.Silent := by
  induction n with
  | zero => exact .pure
  | succ n ih =>
    refine .bind hfn fun r => ?_
    cases r with
    | none => exact ih
    | some a => exact .pure

lemma redis_silent (c : Command M) : (redis c).Always Action.Silent :=
  redis_always (fun _ => trivial) (fun _ => trivial) c

lemma claimRequest_silent (cfg : FlowConfig) (queue : String) (ir : InternalRequest) (member : M)
    (deadline : ℤ) : (claimRequest cfg queue ir member deadline).Always Action.Silent := by
  refine .step trivial fun token => ?_
  cases token with
  | none => exact .pure
  | some token =>
    refine .bind (claimExpiry_always (fun _ => trivial) cfg deadline) fun expiry => ?_
    refine .bind (redis_silent _) fun claimed => ?_
    match claimed with
    | none | some false => exact .pure
    | some true => exact .step trivial fun _ => .pure

lemma releaseRequest_silent (queue : String) (ir : InternalRequest) (member : M)
    (token : String) : (releaseRequest queue ir member token).Always Action.Silent := by
  refine .bind (retryRedisOp_silent (.bind (redis_silent _) fun released => ?_) _) fun _ =>
    .pure
  cases released with
  | none => exact .pure
  | some _ => exact .step trivial fun _ => .pure

lemma releaseClaimed_silent (queue : String) (cs : List (ClaimedRequest M)) :
    (releaseClaimed queue cs).Always Action.Silent := by
  induction cs with
  | nil => exact .pure
  | cons c cs ih =>
    refine .bind (.bind (releaseRequest_silent _ _ _ _) fun _ => ?_) fun _ => ih
    exact always_perform.mpr trivial

lemma terminate_silent (cfg : FlowConfig) (queue : String) (ir : InternalRequest) (member : M)
    (result : ResultMessage) : (terminate cfg queue ir member result).Always Action.Silent := by
  refine .bind (claimRequest_silent _ _ _ _ _) fun claimed => ?_
  match claimed with
  | none | some none => exact .pure
  | some (some token) =>
    refine .step trivial fun sent => ?_
    match sent with
    | true => exact .pure
    | false => exact .bind (releaseRequest_silent _ _ _ _) fun _ => .pure

lemma readPayloads_silent (cfg : FlowConfig) (refs : List String) :
    (readPayloads cfg refs : Code M _).Always Action.Silent := by
  unfold readPayloads
  by_cases hcluster : cfg.clusterKeys = true
  · rw [if_pos hcluster]
    induction refs with
    | nil => exact .pure
    | cons ref refs ih =>
      refine .bind (redis_silent _) fun vs => ?_
      cases vs with
      | none => exact .pure
      | some vs =>
        refine .bind ih fun rest => ?_
        cases rest <;> exact .pure
  · rw [if_neg hcluster]
    exact redis_silent _

variable {past past' : Trace M}

lemma Admits.of_silent {α : Type} {p : Code M α} (hp : p.Always Action.Silent) :
    Admits p (fun _ _ => True) past := by
  refine Prog.Heeds.of_always (fun a ha past => ?_) hp
  cases a with
  | sendRequest d => exact ha.elim
  | _ => exact trivial

lemma LetThrough.mono {ir : InternalRequest} (h : LetThrough ir past) (hpast : past <+: past') :
    LetThrough ir past' := by
  obtain ⟨ir', a, hmem, hrest⟩ := h
  exact ⟨ir', a, hpast.subset hmem, hrest⟩

lemma dispatch_admits {d : Delivery} (releases : List ℕ) (h : LetThrough d.ir past) :
    Admits (dispatch d releases) (fun _ _ => True) past := by
  refine .bind (Q := fun _ _ => True) ?_ fun _ past₁ hpast₁ _ => ?_
  · split
    · exact trivial
    · exact ⟨trivial, fun _ => trivial⟩
  · refine .step (h.mono hpast₁) fun sent past₂ _ _ => ?_
    match sent with
    | true => exact trivial
    | false => exact ⟨trivial, fun _ => trivial⟩

/-- What a round of a poll leaves: a request that waits for its payload has been let through. -/
def Waiting (past : Trace M) (p : Polled M) (past' : Trace M) : Prop :=
  past <+: past' ∧ ∀ c, p = .ready c → LetThrough c.ir past'

lemma waiting_next (h : past <+: past') : Waiting past .next past' :=
  ⟨h, by simp⟩

lemma waiting_stop (h : past <+: past') : Waiting past .stop past' :=
  ⟨h, by simp⟩

lemma Waiting.mono {past₀ : Trace M} {p : Polled M} (h : Waiting past p past')
    (hpast : past₀ <+: past) : Waiting past₀ p past' :=
  ⟨hpast.trans h.1, h.2⟩

variable (codec : Codec M) (cfg : FlowConfig)

lemma terminate_admits (queue : String) (ir : InternalRequest) (member : M)
    (result : ResultMessage) :
    Admits (terminate cfg queue ir member result) (Waiting past) past := by
  refine .extends (.bind (Admits.of_silent (claimRequest_silent _ _ _ _ _)) fun claimed _ _ _ => ?_)
  match claimed with
  | none | some none => exact waiting_next
  | some (some token) =>
    refine .step trivial fun sent _ _ _ => ?_
    match sent with
    | true => exact waiting_next
    | false =>
      exact .bind (Admits.of_silent (releaseRequest_silent _ _ _ _)) fun _ _ _ _ => waiting_stop

lemma admitRequest_admits (queue : String) {ir : InternalRequest} (member : M) (releases : List ℕ)
    (h : LetThrough ir past) :
    Admits (admitRequest cfg queue ir member releases) (Waiting past) past := by
  refine .extends (.bind (Admits.of_silent (claimRequest_silent _ _ _ _ _)) ?_)
  intro claimed _ hpast _
  match claimed with
  | none | some none => exact ⟨trivial, fun _ => waiting_next⟩
  | some (some token) =>
    by_cases hpayload : ir.routing.payloadRef ≠ ""
    · simp only [hpayload, ne_eq, not_false_eq_true, ↓reduceIte]
      refine fun hpast => ⟨hpast, fun c hc => ?_⟩
      cases hc
      exact h.mono hpast
    · simp only [hpayload, ↓reduceIte]
      refine .bind (dispatch_admits releases (h.mono hpast)) fun sent _ _ _ => ?_
      match sent with
      | true => exact waiting_next
      | false =>
        refine .bind (Admits.of_silent (releaseRequest_silent _ _ _ _)) fun _ _ _ _ => ?_
        exact ⟨trivial, fun _ => waiting_stop⟩

lemma applyGate_admits (queue : String) (ir : InternalRequest) (member : M) :
    Admits (applyGate cfg queue ir member) (Waiting past) past := by
  refine .step trivial fun a past₁ hpast hgate => ?_
  have hthrough (h : GateAnswer.verdict a = some .proceed ∨ GateAnswer.verdict a = some .wait) :
      LetThrough { ir with routing := { ir.routing with labels := GateAnswer.labels a } } past₁ :=
    ⟨ir, a, hgate, h, rfl, rfl⟩
  have hback : Admits (do releaseGates (GateAnswer.releases a); pure .next) (Waiting past₁)
      past₁ := ⟨trivial, fun _ => waiting_next (prefix_append _ _)⟩
  refine Prog.Follows.weaken ?_ fun _ _ (h : Waiting past₁ _ _) => h.mono hpast
  cases hv : GateAnswer.verdict a with
  | none => exact hback
  | some v =>
    cases v with
    | refuse => exact hback
    | drop result => exact terminate_admits cfg queue _ member _
    | proceed => exact admitRequest_admits cfg queue member _ (hthrough (.inl hv))
    | wait => exact admitRequest_admits cfg queue member _ (hthrough (.inr hv))

lemma pollMember_admits (queue queueID : String) (qc : QueueConfig) (now : ℤ) (member : M) :
    Admits (pollMember codec cfg queue queueID qc now member) (Waiting past) past := by
  unfold pollMember
  split
  · exact .extends (.bind (Admits.of_silent (redis_silent _)) fun _ _ _ _ => waiting_next)
  · dsimp only
    split
    · exact terminate_admits cfg queue _ member _
    · refine .step trivial fun cancelled past₁ hpast _ => ?_
      refine Prog.Follows.weaken ?_ fun _ _ (h : Waiting past₁ _ _) => h.mono hpast
      split
      · exact terminate_admits cfg queue _ member _
      · exact applyGate_admits cfg queue _ member

/-- All requests of a list have been let through. -/
def AllThrough (cs : List (ClaimedRequest M)) (past : Trace M) : Prop :=
  ∀ c ∈ cs, LetThrough c.ir past

lemma AllThrough.mono {cs : List (ClaimedRequest M)} (h : AllThrough cs past)
    (hpast : past <+: past') : AllThrough cs past' :=
  fun c hc => (h c hc).mono hpast

lemma pollMembers_admits (queue queueID : String) (qc : QueueConfig) (now : ℤ) (ms : List M)
    {ready : List (ClaimedRequest M)} (h : AllThrough ready past) :
    Admits (pollMembers codec cfg queue queueID qc now ms ready)
      (fun r past' => AllThrough r.2 past') past := by
  induction ms generalizing ready past with
  | nil => exact h
  | cons member ms ih =>
    refine .bind (pollMember_admits codec cfg queue queueID qc now member) ?_
    intro p past₁ hpast hp
    cases p with
    | next => exact ih (h.mono hpast)
    | stop => exact h.mono hpast
    | ready c =>
      refine ih fun c' hc' => ?_
      rcases mem_append.mp hc' with hc' | hc'
      · exact (h c' hc').mono hpast
      · rw [mem_singleton.mp hc']
        exact hp.2 c rfl

lemma dispatchReady_admits {entries : List (ClaimedRequest M × Option String)}
    (h : AllThrough (entries.map Prod.fst) past) :
    Admits (dispatchReady entries) (fun _ _ => True) past := by
  induction entries generalizing past with
  | nil => exact trivial
  | cons entry rest ih =>
    obtain ⟨c, payload⟩ := entry
    have hrest : AllThrough (rest.map Prod.fst) past := fun c' hc' =>
      h c' (mem_cons_of_mem _ hc')
    cases payload with
    | none =>
      refine .step trivial fun sent past₁ hpast₁ _ => ?_
      match sent with
      | true => exact .step trivial fun _ _ hpast₂ _ => ih (hrest.mono (hpast₁.trans hpast₂))
      | false => exact trivial
    | some payload =>
      have hc : LetThrough { c.ir with payload := some payload } past := h c mem_cons_self
      refine .bind (dispatch_admits c.releases hc) fun sent past₁ hpast₁ _ => ?_
      match sent with
      | true => exact ih (hrest.mono hpast₁)
      | false => exact trivial

lemma loadAndDispatch_admits {ready : List (ClaimedRequest M)} (h : AllThrough ready past) :
    Admits (loadAndDispatch cfg ready) (fun _ _ => True) past := by
  unfold loadAndDispatch
  split
  · exact trivial
  · refine .bind (Admits.of_silent (readPayloads_silent _ _)) fun values past₁ hpast₁ _ => ?_
    cases values with
    | none => exact trivial
    | some values =>
      refine dispatchReady_admits fun c hc => ?_
      obtain ⟨entry, hentry, rfl⟩ := mem_map.mp hc
      exact (h _ (of_mem_zip hentry).1).mono hpast₁

lemma processMessagesWithConfig_admits (queue queueID : String) (qc : QueueConfig) :
    Admits (processMessagesWithConfig codec cfg queue queueID qc) (fun _ _ => True) [] := by
  refine .step trivial fun now _ _ _ => Prog.Heeds.step trivial fun budget _ _ _ => ?_
  change Admits (if ⌊(cfg.batchSize : ℚ) * budget⌋ ≤ 0 then _ else _) _ _
  split
  · exact .bind (Admits.of_silent (redis_silent _)) fun _ _ _ _ => trivial
  · refine .bind (Admits.of_silent (redis_silent _)) fun zs past _ _ => ?_
    cases zs with
    | none => exact trivial
    | some zs =>
      have hnone : AllThrough [] past := fun c hc => absurd hc not_mem_nil
      refine .bind (pollMembers_admits codec cfg queue queueID qc now _ hnone) ?_
      rintro ⟨more, ready⟩ past₁ _ hready
      match more with
      | false => exact Admits.of_silent (releaseClaimed_silent queue ready)
      | true =>
        refine .bind (loadAndDispatch_admits cfg hready) fun rest _ _ _ => ?_
        exact Admits.of_silent (releaseClaimed_silent queue rest)

variable {codec cfg} {queue : String} {ir : InternalRequest} {member : M} {tr : Trace M}
  {p : Polled M} {r : GateReturn}

lemma verdictOf_proceed (hwait : r.waits = false)
    (h : verdictOf ir r = some .proceed ∨ verdictOf ir r = some .wait) : r.proceeds = true := by
  unfold verdictOf at h
  cases hv : r.verdict with
  | error e => simp [hv] at h
  | ok v =>
    cases haction : v.action with
    | proceed => simp [GateReturn.proceeds, hv, haction]
    | wait => simp [GateReturn.waits, hv, haction] at hwait
    | refuse | drop => simp [hv, haction] at h

lemma verdictOf_stopped (ir : InternalRequest) (hproceeds : r.proceeds = false)
    (hwaits : r.waits = false) : verdictOf ir r = none ∨ verdictOf ir r = some .refuse ∨
      ∃ result, verdictOf ir r = some (.drop result) := by
  unfold verdictOf
  cases hv : r.verdict with
  | error e => exact .inl rfl
  | ok v =>
    cases haction : v.action with
    | proceed => simp [GateReturn.proceeds, hv, haction] at hproceeds
    | wait => simp [GateReturn.waits, hv, haction] at hwaits
    | refuse => exact .inr (.inl (by simp only [haction]))
    | drop => exact .inr (.inr ⟨_, by simp only [haction]; rfl⟩)

/-- Where a polled request goes that is not sent.  It stays in the queue, because the poll has not
claimed it; or its claim is released; or it ends with a result. -/
structure SetAside (queue : String) (ir : InternalRequest) (member : M) (tr : Trace M)
    (p : Polled M) : Prop where
  not_sent : ∀ d sent, ⟨.sendRequest d, sent⟩ ∉ tr
  not_ready : ∀ c, p ≠ .ready c
  gone : (∀ h u, ⟨.storeHandle h, u⟩ ∉ tr) ∨
    (∃ token reply, ⟨.redis (.release queue ir.claimKey member ir.queueScore token), reply⟩ ∈ tr) ∨
    ∃ result token, ⟨.sendResult ⟨result, token⟩, true⟩ ∈ tr

/-- The action does not store a claim. -/
def Action.Unstored : Action M → Prop
  | .storeHandle _ => False
  | _ => True

lemma redis_path {c : Command M} {answer : Option c.Reply}
    (hp : (redis c).Path tr answer) : ∃ reply, ⟨.redis c, reply⟩ ∈ tr := by
  obtain ⟨n, tr₁, rfl, hp₁⟩ := path_step hp
  cases n with
  | zero => exact ⟨answer, by simp [path_perform hp₁]⟩
  | succ n =>
    obtain ⟨reply, tr₂, rfl, -⟩ := path_step hp₁
    exact ⟨reply, by simp⟩

lemma claimRequest_path {deadline : ℤ} {claimed : Option (Option String)}
    (hp : (claimRequest cfg queue ir member deadline).Path tr claimed) :
    (∃ token, claimed = some (some token)) ∨ ∀ h u, ⟨.storeHandle h, u⟩ ∉ tr := by
  obtain ⟨token, tr₁, rfl, hp₁⟩ := path_step hp
  cases token with
  | none =>
    obtain ⟨rfl, -⟩ := path_pure hp₁
    exact .inr (by simp)
  | some token =>
    obtain ⟨tr₂, tr₃, expiry, rfl, hexpiry, hp₃⟩ := path_bind hp₁
    obtain ⟨tr₄, tr₅, answer, rfl, hredis, hp₅⟩ := path_bind hp₃
    have hquiet : ∀ e ∈ tr₂ ++ tr₄, e.1.Unstored := by
      intro e he
      rcases mem_append.mp he with he | he
      · exact (claimExpiry_always (fun _ => trivial) cfg deadline).path hexpiry e he
      · exact (redis_always (fun _ => trivial) (fun _ => trivial) _).path hredis e he
    have hlost : tr₅ = [] → ∀ h u, (⟨.storeHandle h, u⟩ : Sigma (Action.Reply : Action M → Type)) ∉
        ⟨.newClaimToken ir.claimKey, some token⟩ :: (tr₂ ++ (tr₄ ++ tr₅)) := by
      rintro rfl h u hmem
      rcases mem_cons.mp hmem with heq | hmem
      · cases heq
      · exact hquiet _ (by simpa using hmem)
    match answer with
    | none | some false => exact .inr (hlost (path_pure hp₅).1)
    | some true =>
      obtain ⟨-, tr₆, rfl, hp₆⟩ := path_step hp₅
      exact .inl ⟨token, (path_pure hp₆).2⟩

lemma releaseRequest_path {token : String} {u : Unit}
    (hp : (releaseRequest queue ir member token).Path tr u) :
    ∃ reply, ⟨.redis (.release queue ir.claimKey member ir.queueScore token), reply⟩ ∈ tr := by
  obtain ⟨tr₁, tr₂, r, rfl, hretry, -⟩ := path_bind hp
  obtain ⟨tr₃, tr₄, released, rfl, hrelease, -⟩ := path_bind hretry
  obtain ⟨tr₅, tr₆, answer, rfl, hredis, -⟩ := path_bind hrelease
  obtain ⟨reply, hmem⟩ := redis_path hredis
  exact ⟨reply, mem_append_left _ (mem_append_left _ (mem_append_left _ hmem))⟩

lemma terminate_setAside {result : ResultMessage}
    (hp : (terminate cfg queue ir member result).Path tr p) : SetAside queue ir member tr p := by
  have hsent : ∀ d sent, (⟨.sendRequest d, sent⟩ : Sigma (Action.Reply : Action M → Type)) ∉ tr :=
    fun d sent hmem => (terminate_silent cfg queue ir member result).path hp _ hmem
  obtain ⟨tr₁, tr₂, claimed, rfl, hclaim, hp₂⟩ := path_bind hp
  have hstays : tr₂ = [] → (∀ token, claimed ≠ some (some token)) → ∀ h u,
      (⟨.storeHandle h, u⟩ : Sigma (Action.Reply : Action M → Type)) ∉ tr₁ ++ tr₂ := by
    rintro rfl hclaimed
    rw [append_nil]
    exact (claimRequest_path hclaim).resolve_left fun ⟨token, h⟩ => hclaimed token h
  match claimed with
  | none | some none =>
    obtain ⟨htr₂, rfl⟩ := path_pure hp₂
    exact ⟨hsent, by simp, .inl (hstays htr₂ (by simp))⟩
  | some (some token) =>
    obtain ⟨sent, tr₃, rfl, hp₃⟩ := path_step hp₂
    match sent with
    | true =>
      obtain ⟨rfl, rfl⟩ := path_pure hp₃
      exact ⟨hsent, by simp, .inr (.inr ⟨result, token, by simp⟩)⟩
    | false =>
      obtain ⟨tr₄, tr₅, u, rfl, hrelease, hp₅⟩ := path_bind hp₃
      obtain ⟨-, rfl⟩ := path_pure hp₅
      obtain ⟨reply, hmem⟩ := releaseRequest_path hrelease
      refine ⟨hsent, by simp, .inr (.inl ⟨token, reply, ?_⟩)⟩
      exact mem_append_right _ (mem_cons_of_mem _ (mem_append_left _ hmem))

lemma applyGate_setAside {locals : ℕ → LocalGate} {g : Gate} {a : GateAnswer ir}
    (hp : (applyGate cfg queue ir member).Path (⟨.ask (.gate ir), a⟩ :: tr) p)
    (hanswers : Answers locals g ir a r) (hproceeds : r.proceeds = false)
    (hwaits : r.waits = false) : SetAside queue ir member tr p := by
  obtain ⟨a', tr', heq, hp'⟩ := path_step hp
  obtain ⟨rfl, rfl⟩ : a = a' ∧ tr = tr' := by
    simpa using heq
  obtain ⟨req, trg, -, -, hverdict⟩ := hanswers
  have hback : ∀ {tr : Trace M} {p : Polled M},
      (do releaseGates (GateAnswer.releases a); pure .next : Code M (Polled M)).Path tr p →
      SetAside queue ir member tr p := by
    intro tr p hback
    obtain ⟨u, tr₁, rfl, hp₁⟩ := path_step hback
    obtain ⟨rfl, rfl⟩ := path_pure hp₁
    exact ⟨by simp, by simp, .inl (by simp)⟩
  rcases verdictOf_stopped ir hproceeds hwaits with h | h | ⟨result, h⟩
  · rw [hverdict, h] at hp'
    exact hback hp'
  · rw [hverdict, h] at hp'
    exact hback hp'
  · rw [hverdict, h] at hp'
    have haside : SetAside queue { ir with routing := { ir.routing with labels := a.labels } }
        member tr p := terminate_setAside hp'
    exact ⟨haside.not_sent, haside.not_ready, haside.gone⟩

/-- A claim can succeed. -/
lemma exists_claimRequest (queue : String) (ir : InternalRequest) (member : M) (deadline : ℤ) :
    ∃ tr token, (claimRequest cfg queue ir member deadline).Path tr (some (some token)) := by
  let expiry := claimExpiryAt cfg 0 deadline
  exact ⟨[⟨.newClaimToken ir.claimKey, some "c"⟩, ⟨.ask .now, (0 : ℤ)⟩, ⟨.ask .resends, (0 : ℕ)⟩,
    ⟨.redis (.claim queue ir.claimKey member "c" expiry), some true⟩,
    ⟨.storeHandle ⟨"c", queue, deadline, ir.id, ir.routing.requestToken⟩, ()⟩], "c",
    .act _ (.act _ (.act _ (.act _ (.act _ (.done _)))))⟩

lemma exists_dispatch (d : Delivery) (releases : List ℕ) :
    ∃ tr : Trace M, (dispatch d releases).Path tr true ∧ ⟨.sendRequest d, true⟩ ∈ tr := by
  unfold dispatch
  split
  · exact ⟨[⟨.sendRequest d, true⟩], .act _ (.done _), mem_cons_self⟩
  · exact ⟨[⟨.swapReleases d.ir.id releases, ()⟩, ⟨.sendRequest d, true⟩],
      .act _ (.act _ (.done _)), mem_cons_of_mem _ mem_cons_self⟩

/-- A request that the gate asks to wait can be handed on, or claimed until its payload is read. -/
lemma applyGate_waiting {locals : ℕ → LocalGate} {g : Gate} {a : GateAnswer ir}
    (hanswers : Answers locals g ir a r) (hwaits : r.waits = true) :
    ∃ tr p, (applyGate cfg queue ir member).Path (⟨.ask (.gate ir), a⟩ :: tr) p ∧
      ((∃ d, ⟨.sendRequest d, true⟩ ∈ tr ∧ d.ir.id = ir.id) ∨
        ∃ c, p = .ready c ∧ c.ir.id = ir.id) := by
  obtain ⟨v, hv, haction⟩ := GateReturn.verdict_of_waits hwaits
  obtain ⟨req, trg, -, -, hverdict⟩ := hanswers
  have hwait : a.verdict = some .wait := by
    rw [hverdict, verdictOf, hv]
    simp only [haction]
  let ir' : InternalRequest := { ir with routing := { ir.routing with labels := a.labels } }
  obtain ⟨tr, token, hclaim⟩ := @exists_claimRequest M cfg queue ir' member ir'.deadline
  suffices hadmit : ∃ tr p, (admitRequest cfg queue ir' member a.releases).Path tr p ∧
      ((∃ d, ⟨.sendRequest d, true⟩ ∈ tr ∧ d.ir.id = ir.id) ∨
        ∃ c, p = .ready c ∧ c.ir.id = ir.id) by
    obtain ⟨tr, p, hp, hon⟩ := hadmit
    refine ⟨tr, p, .act _ ?_, hon⟩
    dsimp only [Prog.bind]
    rw [hwait]
    exact hp
  by_cases hpayload : ir'.routing.payloadRef ≠ ""
  · refine ⟨tr ++ [], _, hclaim.bind ?_, .inr ⟨⟨ir', member, token, a.releases⟩, rfl, rfl⟩⟩
    dsimp only
    rw [if_pos hpayload]
    exact .done _
  · obtain ⟨tr', hdispatch, hmem⟩ := exists_dispatch (M := M) ⟨ir', token⟩ a.releases
    refine ⟨tr ++ (tr' ++ []), .next, hclaim.bind ?_,
      .inl ⟨⟨ir', token⟩, mem_append_right _ (mem_append_left _ hmem), rfl⟩⟩
    dsimp only
    rw [if_neg hpayload]
    exact hdispatch.bind (.done _)

/-- The flow respects its queue gate, for each request that the gate does not ask to wait: in a
whole poll, a request is sent only if `Apply` returned no error and `ActionContinue` for it; and a
request for which it returned anything else is set aside.  A request that the gate asks to wait can
be handed on. -/
structure RespectsGate (locals : ℕ → LocalGate) (g : Gate) : Prop where
  sent : ∀ {M : Type} {codec : Codec M} {cfg : FlowConfig} {queue queueID : String}
    {qc : QueueConfig} {tr : Trace M},
    (processMessagesWithConfig codec cfg queue queueID qc).Path tr () →
    (∀ ir, ∀ a : GateAnswer ir, ⟨.ask (.gate ir), a⟩ ∈ tr → ∃ r, Answers locals g ir a r) →
    ∀ {tr₁ tr₂ : Trace M} {d : Delivery} {sent : Bool},
    tr = tr₁ ++ ⟨.sendRequest d, sent⟩ :: tr₂ →
    ∃ ir, ∃ a : GateAnswer ir, ⟨.ask (.gate ir), a⟩ ∈ tr₁ ∧ d.ir.id = ir.id ∧
      d.ir.routing = { ir.routing with labels := a.labels } ∧
      ∃ r, Answers locals g ir a r ∧ (r.waits = false → r.proceeds = true)
  setAside : ∀ {M : Type} {cfg : FlowConfig} {queue : String} {ir : InternalRequest} {member : M}
    {a : GateAnswer ir} {tr : Trace M} {p : Polled M},
    (applyGate cfg queue ir member).Path (⟨.ask (.gate ir), a⟩ :: tr) p →
    ∀ {r : GateReturn}, Answers locals g ir a r → r.proceeds = false → r.waits = false →
    SetAside queue ir member tr p
  waiting : ∀ {M : Type} {cfg : FlowConfig} {queue : String} {ir : InternalRequest} {member : M}
    {a : GateAnswer ir} {r : GateReturn}, Answers locals g ir a r → r.waits = true →
    ∃ tr p, (applyGate cfg queue ir member).Path (⟨.ask (.gate ir), a⟩ :: tr) p ∧
      ((∃ d, ⟨.sendRequest d, true⟩ ∈ tr ∧ d.ir.id = ir.id) ∨
        ∃ c, p = .ready c ∧ c.ir.id = ir.id)

lemma respectsGate (locals : ℕ → LocalGate) (g : Gate) : RespectsGate locals g := by
  refine ⟨fun {M codec cfg queue queueID qc tr} hp hgate {tr₁ tr₂ d sent} htr => ?_,
    fun hp => applyGate_setAside hp, applyGate_waiting⟩
  obtain ⟨ir, a, hmem, hverdict, hid, hrouting⟩ :=
    (processMessagesWithConfig_admits codec cfg queue queueID qc).path hp tr₁ (.sendRequest d) sent
      tr₂ htr
  have hmem' : (⟨.ask (.gate ir), a⟩ : Sigma (Action.Reply : Action M → Type)) ∈ tr := by
    rw [htr]
    exact mem_append_left _ hmem
  obtain ⟨r, hanswers⟩ := hgate ir a hmem'
  refine ⟨ir, a, hmem, hid, hrouting, r, hanswers, fun hwait => ?_⟩
  obtain ⟨req, trg, -, -, hv⟩ := hanswers
  exact verdictOf_proceed hwait (hv ▸ hverdict)

end Redis

/-! ### The sql flow -/

namespace SqlFlow

/-- The actions of a poll and their answers. -/
abbrev Trace := List (Sigma Action.Reply)

/-- The goroutine of a row has been started with a request, and the gate has let it through. -/
def LetThrough (ir' : InternalRequest) (past : Trace) : Prop :=
  ∃ i ir out, ⟨.spawn i ir, ()⟩ ∈ past ∧ ⟨.receive i, out⟩ ∈ past ∧
    (out.proceeds = true ∨ out.waits = true) ∧ ir' = ir.relabel out.req

/-- Requests are only sent after the gate has let them through. -/
def Admitted : Action → Trace → Prop
  | .sendRequest ir, past => LetThrough ir past
  | _, _ => True

/-- The action is not a send on the request channel. -/
def Action.Silent : Action → Prop
  | .sendRequest _ => False
  | _ => True

/-- The code only sends requests that the gate has let through. -/
abbrev Admits {α : Type} (p : Code α) (Q : α → Trace → Prop) (past : Trace) : Prop :=
  p.Heeds Admitted Q past

lemma call_silent {a : Action} (h : a.Silent) : (call a).Always Action.Silent :=
  always_perform.mpr h

lemma ofGate_silent {α : Type} (p : FlowControl.GateCode α) : (ofGate p).Always Action.Silent :=
  always_embed (fun _ => trivial) p

lemma emit_silent (row : SqlQueue.Request) (result : ResultMessage) (back : PollReturns) :
    (emit row result back).Always Action.Silent :=
  .bind (call_silent trivial) fun _ => .pure

lemma giveBack_silent (f : Flow) (back : PollReturns) :
    (giveBack f back).Always Action.Silent := by
  refine .bind ?_ fun _ => ?_
  · split
    · exact .pure
    · exact call_silent trivial
  · split
    · exact .pure
    · exact .bind (call_silent trivial) fun _ => call_silent trivial

lemma abandonRest_silent (es : List Polled) (back : PollReturns) :
    (abandonRest es back).Always Action.Silent := by
  induction es generalizing back with
  | nil => exact .pure
  | cons e es ih =>
    refine .bind ?_ fun _ => ih _
    cases e.gated with
    | none => exact .pure
    | some i => exact .bind (call_silent trivial) fun _ => ofGate_silent _

variable {past past' : Trace}

lemma Admits.of_silent {α : Type} {p : Code α} (hp : p.Always Action.Silent) :
    Admits p (fun _ _ => True) past := by
  refine Prog.Heeds.of_always (fun a ha past => ?_) hp
  cases a with
  | sendRequest d => exact ha.elim
  | _ => exact trivial

lemma LetThrough.mono {ir : InternalRequest} (h : LetThrough ir past) (hpast : past <+: past') :
    LetThrough ir past' := by
  obtain ⟨i, ir', out, hspawn, hreceive, hrest⟩ := h
  exact ⟨i, ir', out, hpast.subset hspawn, hpast.subset hreceive, hrest⟩

lemma admit_admits (row : SqlQueue.Request) {ir : InternalRequest}
    (releases : List FlowControl.Hold) (back : PollReturns) (h : LetThrough ir past) :
    Admits (admitRow row ir releases back) (fun _ _ => True) past := by
  have htrack : (if releases = [] then pure () else trackGateReleases ir.stamp releases :
      Code Unit).Always Action.Silent := by
    split
    · exact .pure
    · exact .bind (call_silent trivial) fun _ => ofGate_silent _
  refine .bind (Admits.of_silent htrack) fun _ past₁ hpast₁ _ => ?_
  refine .step (h.mono hpast₁) fun sent past₂ _ _ => ?_
  have hrelease : (do releaseTracked ir.stamp; pure (false, back.addNow row.stamp) :
      Code (Bool × PollReturns)).Always Action.Silent :=
    .bind (.bind (call_silent trivial) fun _ => ofGate_silent _) fun _ => .pure
  cases sent with
  | true => exact trivial
  | false => exact Admits.of_silent hrelease

lemma dispatchGated_admits (row : SqlQueue.Request) {ir : InternalRequest} {out : GateReturn}
    (back : PollReturns) {i : ℕ} (hspawn : ⟨.spawn i ir, ()⟩ ∈ past)
    (hreceive : ⟨.receive i, out⟩ ∈ past) :
    Admits (dispatchGated row ir out back) (fun _ _ => True) past := by
  unfold dispatchGated
  split
  · exact .of_silent (.bind (ofGate_silent _) fun _ => .pure)
  next v hv =>
    split
    · exact .of_silent (.bind (ofGate_silent _) fun _ => .pure)
    · exact .of_silent (.bind (ofGate_silent _) fun _ => emit_silent _ _ _)
    next hrefuse hdrop =>
      refine admit_admits row _ back ⟨i, ir, out, hspawn, hreceive, ?_, rfl⟩
      exact GateReturn.proceeds_or_waits hv hrefuse hdrop

/-- The entries of a poll wait for goroutines that have been started with their requests. -/
def Entered (es : List Polled) (past : Trace) : Prop :=
  ∀ e ∈ es, ∀ i ∈ e.gated, ∃ ir, e.ir = some ir ∧ ⟨.spawn i ir, ()⟩ ∈ past

lemma Entered.mono {es : List Polled} (h : Entered es past) (hpast : past <+: past') :
    Entered es past' := by
  intro e he i hi
  obtain ⟨ir, hir, hspawn⟩ := h e he i hi
  exact ⟨ir, hir, hpast.subset hspawn⟩

variable {f : Flow} {cfg : QueueConfig}

lemma startGates_admits (now : ℤ) (i : ℕ) (rows : List SqlQueue.Request) :
    Admits (startGates f cfg now i rows) Entered past := by
  induction rows generalizing i past with
  | nil => exact fun e he => absurd he not_mem_nil
  | cons row rows ih =>
    have hrest (e : Polled) (past : Trace) (he : Entered [e] past) :
        Admits (do let es ← startGates f cfg now (i + 1) rows; pure (e :: es)) Entered past := by
      refine .bind (ih (i + 1)) fun es past' hpast hes e' he' => ?_
      rcases mem_cons.mp he' with rfl | he'
      · exact (he.mono hpast) e' mem_cons_self
      · exact hes e' he'
    have hungated : ∀ (ir : Option InternalRequest) (expired : Bool),
        Entered [⟨row, ir, expired, none⟩] past := by simp [Entered]
    rw [startGates]
    cases rowRequest f cfg row with
    | none => exact hrest _ past (hungated _ _)
    | some ir =>
      by_cases hexpired : row.deadline < now
      · simp only [hexpired, ↓reduceIte]
        exact hrest _ past (hungated _ _)
      · by_cases hcancelled : row.cancelled = true
        · simp only [hexpired, hcancelled, ↓reduceIte]
          exact hrest _ past (hungated _ _)
        · simp only [hexpired, hcancelled, ↓reduceIte]
          refine .step trivial fun u past₁ _ hspawn => hrest _ past₁ ?_
          simpa [Entered] using hspawn

lemma dispatchPolled_admits {e : Polled} (back : PollReturns) (he : Entered [e] past) :
    Admits (dispatchPolled cfg e back) (fun _ _ => True) past := by
  unfold dispatchPolled
  split
  · exact .of_silent (emit_silent _ _ _)
  next ir hir =>
    split
    · exact .of_silent (emit_silent _ _ _)
    · split
      · exact .of_silent (emit_silent _ _ _)
      next i hi =>
        obtain ⟨ir', hir', hspawn⟩ := he e mem_cons_self i hi
        obtain rfl : ir = ir' := Option.some.inj (hir.symm.trans hir')
        refine .step trivial fun out past₁ hpast hreceive => ?_
        exact dispatchGated_admits e.row back (hpast.subset hspawn) hreceive

lemma dispatchAll_admits {es : List Polled} (back : PollReturns) (hes : Entered es past) :
    Admits (dispatchAll cfg es back) (fun _ _ => True) past := by
  induction es generalizing back past with
  | nil => exact trivial
  | cons e es ih =>
    have hhead : Entered [e] past := fun e' he' i hi =>
      hes e' (mem_singleton.mp he' ▸ mem_cons_self) i hi
    refine .bind (dispatchPolled_admits back hhead) ?_
    rintro ⟨more, back'⟩ past' hpast -
    cases more with
    | true =>
      exact ih back' (Entered.mono (fun e' he' => hes e' (mem_cons_of_mem e he')) hpast)
    | false => exact Admits.of_silent (abandonRest_silent es back')

lemma processQueue_admits : Admits (processQueue f cfg) (fun _ _ => True) [] := by
  refine .step trivial fun budget _ _ _ => ?_
  change Admits (if ⌊(f.batchSize : ℚ) * budget⌋ ≤ 0 then _ else _) _ _
  split
  · exact .step trivial fun _ _ _ _ => trivial
  · refine .step trivial fun _ _ _ _ => Prog.Heeds.step trivial fun answer _ _ _ => ?_
    cases answer with
    | none => exact trivial
    | some rows =>
      refine .step trivial fun now _ _ _ => .bind (startGates_admits _ 0 rows) ?_
      refine fun entries past _ hentered => .bind (dispatchAll_admits _ hentered) ?_
      exact fun back past' _ _ => Admits.of_silent (giveBack_silent f back)

/-- Where the request of a row goes that is not sent: it is given back, or it ends with a result. -/
structure SetAside (row : SqlQueue.Request) (back back' : PollReturns) (tr : Trace) : Prop where
  not_sent : ∀ ir sent, ⟨.sendRequest ir, sent⟩ ∉ tr
  gone : back' = back.addLater row.stamp ∨ back' = back.addNow row.stamp ∨
    ∃ result, ⟨.emit result, true⟩ ∈ tr

lemma dispatchGated_setAside {row : SqlQueue.Request} {ir : InternalRequest} {out : GateReturn}
    {back back' : PollReturns} {tr : Trace} {more : Bool}
    (hp : (dispatchGated row ir out back).Path tr (more, back')) (hproceeds : out.proceeds = false)
    (hwaits : out.waits = false) : SetAside row back back' tr := by
  have hlater : ∀ {tr : Trace}, (do
      releaseGateReleases out.releases
      pure (true, back.addLater row.stamp) : Code (Bool × PollReturns)).Path tr (more, back') →
      SetAside row back back' tr := by
    intro tr hp
    have hsilent : (do
        releaseGateReleases out.releases
        pure (true, back.addLater row.stamp) : Code (Bool × PollReturns)).Always Action.Silent :=
      .bind (ofGate_silent _) fun _ => .pure
    obtain ⟨tr₁, tr₂, u, rfl, -, hp₂⟩ := path_bind hp
    obtain ⟨-, heq⟩ := path_pure hp₂
    exact ⟨fun ir sent hmem => hsilent.path hp _ hmem, .inl (Prod.mk.inj heq).2⟩
  unfold dispatchGated at hp
  split at hp
  · exact hlater hp
  next v hv =>
    split at hp
    · exact hlater hp
    · obtain ⟨tr₁, tr₂, u, rfl, hrelease, hp₂⟩ := path_bind hp
      obtain ⟨sent, tr₃, rfl, hp₃⟩ := path_step hp₂
      obtain ⟨rfl, heq⟩ := path_pure hp₃
      refine ⟨fun ir' sent' hmem => ?_, ?_⟩
      · rcases mem_append.mp hmem with hmem | hmem
        · exact (ofGate_silent _).path hrelease _ hmem
        · simp at hmem
      · cases sent with
        | true => exact .inr (.inr ⟨_, mem_append_right _ mem_cons_self⟩)
        | false => exact .inr (.inl (Prod.mk.inj heq).2)
    next hrefuse hdrop =>
      rcases GateReturn.proceeds_or_waits hv hrefuse hdrop with h | h
      · rw [h] at hproceeds
        cases hproceeds
      · rw [h] at hwaits
        cases hwaits

lemma dispatchGated_waiting {row : SqlQueue.Request} {ir : InternalRequest} {out : GateReturn}
    {back : PollReturns} (hwaits : out.waits = true) :
    ∃ tr, (dispatchGated row ir out back).Path tr (true, back) ∧
      ⟨.sendRequest (ir.relabel out.req), true⟩ ∈ tr := by
  obtain ⟨v, hv, haction⟩ := GateReturn.verdict_of_waits hwaits
  have heq : dispatchGated row ir out back =
      admitRow row (ir.relabel out.req) out.releases back := by
    unfold dispatchGated
    simp only [hv, haction]
  rw [heq, admitRow]
  split
  · exact ⟨[⟨.sendRequest _, true⟩], .act _ (.done _), mem_cons_self⟩
  · exact ⟨[⟨.swapReleases _ out.releases, []⟩, ⟨.sendRequest _, true⟩],
      .act _ (.act _ (.done _)), mem_cons_of_mem _ mem_cons_self⟩

lemma giveBack_returns {back : PollReturns} {tr : Trace} {u : Unit}
    (hp : (giveBack f back).Path tr u) :
    (back.now ≠ [] → ⟨.undispatch back.now, ()⟩ ∈ tr) ∧
      (back.later ≠ [] → ∃ notBefore, ⟨.defer back.later notBefore, ()⟩ ∈ tr) := by
  obtain ⟨tr₁, tr₂, u₁, rfl, hnow, hlater⟩ := path_bind hp
  refine ⟨fun h => ?_, fun h => ?_⟩
  · rw [if_neg h] at hnow
    obtain rfl := path_perform hnow
    exact mem_append_left _ mem_cons_self
  · rw [if_neg h] at hlater
    obtain ⟨now, tr₃, rfl, hp₃⟩ := path_step hlater
    obtain rfl := path_perform hp₃
    exact ⟨_, mem_append_right _ (mem_cons_of_mem _ mem_cons_self)⟩

/-- The outcome is what `Apply` of the gate returned for the request. -/
def Answers (locals : ℕ → LocalGate) (g : Gate) (ir : InternalRequest) (out : GateReturn) : Prop :=
  ∃ tr, (g.apply locals ir.gateRequest []).Path tr out

/-- The flow respects its queue gate, for each request that the gate does not ask to wait, and can
hand on any other.  What a poll gives back is returned to the queue at its end. -/
structure RespectsGate (locals : ℕ → LocalGate) (g : Gate) : Prop where
  sent : ∀ {f : Flow} {cfg : QueueConfig} {tr : Trace}, (processQueue f cfg).Path tr () →
    (∀ i ir out, ⟨.spawn i ir, ()⟩ ∈ tr → ⟨.receive i, out⟩ ∈ tr → Answers locals g ir out) →
    ∀ {tr₁ ir' sent tr₂}, tr = tr₁ ++ ⟨.sendRequest ir', sent⟩ :: tr₂ →
    ∃ i ir out, ⟨.spawn i ir, ()⟩ ∈ tr₁ ∧ ⟨.receive i, out⟩ ∈ tr₁ ∧ ir' = ir.relabel out.req ∧
      Answers locals g ir out ∧ (out.waits = false → out.proceeds = true)
  setAside : ∀ {row : SqlQueue.Request} {ir : InternalRequest} {out : GateReturn}
    {back back' : PollReturns} {tr : Trace} {more : Bool},
    (dispatchGated row ir out back).Path tr (more, back') → Answers locals g ir out →
    out.proceeds = false → out.waits = false → SetAside row back back' tr
  waiting : ∀ {row : SqlQueue.Request} {ir : InternalRequest} {out : GateReturn}
    {back : PollReturns}, out.waits = true → ∃ tr,
      (dispatchGated row ir out back).Path tr (true, back) ∧
      ⟨.sendRequest (ir.relabel out.req), true⟩ ∈ tr
  returned : ∀ {f : Flow} {back : PollReturns} {tr : Trace} {u : Unit},
    (giveBack f back).Path tr u → (back.now ≠ [] → ⟨.undispatch back.now, ()⟩ ∈ tr) ∧
      (back.later ≠ [] → ∃ notBefore, ⟨.defer back.later notBefore, ()⟩ ∈ tr)

lemma respectsGate (locals : ℕ → LocalGate) (g : Gate) : RespectsGate locals g := by
  refine ⟨fun {f cfg tr} hp hgate {tr₁ ir' sent tr₂} htr => ?_,
    fun hp _ hproceeds hwaits => dispatchGated_setAside hp hproceeds hwaits, dispatchGated_waiting,
    giveBack_returns⟩
  obtain ⟨i, ir, out, hspawn, hreceive, hthrough, hrelabel⟩ :=
    processQueue_admits.path hp tr₁ (.sendRequest ir') sent tr₂ htr
  have hmem : ∀ e ∈ tr₁, e ∈ tr := fun e he => htr ▸ mem_append_left _ he
  have hanswers := hgate i ir out (hmem _ hspawn) (hmem _ hreceive)
  refine ⟨i, ir, out, hspawn, hreceive, hrelabel, hanswers, fun hwaits => ?_⟩
  exact hthrough.resolve_right (by simp [hwaits])

end SqlFlow

/-! ### The Pub/Sub flow -/

namespace PubSub

/-- The actions of a callback and their answers. -/
abbrev Trace := List (Sigma Action.Reply)

/-- Requests are only sent after the gate has let them through. -/
def Admitted : Action → Trace → Prop
  | .sendRequest ir', past => ∃ (ir : InternalRequest) (r : GateReturn),
      ⟨.apply ir.gateRequest, r⟩ ∈ past ∧ (r.proceeds = true ∨ r.waits = true) ∧
      ir' = ir.relabel r.req
  | _, _ => True

lemma awaitResult_admits (msg : Message) (past : Trace) :
    (awaitResult msg).Heeds Admitted (fun _ _ => True) past := by
  refine .step trivial fun result _ _ _ => ?_
  cases result <;> exact ⟨trivial, fun _ => trivial⟩

lemma handleGated_admits (msg : Message) {ir : InternalRequest} {r : GateReturn} {past : Trace}
    (h : ⟨.apply ir.gateRequest, r⟩ ∈ past) :
    (handleGated msg ir r).Heeds Admitted (fun _ _ => True) past := by
  unfold handleGated
  split
  · exact ⟨trivial, fun _ => trivial⟩
  next v hv =>
    split
    · exact ⟨trivial, fun _ => trivial⟩
    · exact .step trivial fun _ _ _ _ => awaitResult_admits msg _
    next hrefuse hdrop =>
      refine .step ?_ fun _ _ _ _ => awaitResult_admits msg _
      exact ⟨ir, r, h, GateReturn.proceeds_or_waits hv hrefuse hdrop, rfl⟩

lemma callback_admits (sub : Subscription) (msg : Message) :
    (callback sub msg).Heeds Admitted (fun _ _ => True) [] := by
  unfold callback
  split
  · exact ⟨trivial, fun _ => trivial⟩
  · refine .step trivial fun _ _ _ _ => Prog.Heeds.step trivial fun r _ _ hr => ?_
    refine .bind (handleGated_admits msg hr) fun _ _ _ _ => ?_
    exact .step trivial fun _ _ _ _ => ⟨trivial, fun _ => trivial⟩

/-- Where a request goes that is not sent: the message is not acknowledged, now or after a delay, or
the request ends with a result. -/
structure SetAside (msg : Message) (tr : Trace) : Prop where
  not_sent : ∀ ir u, ⟨.sendRequest ir, u⟩ ∉ tr
  gone : ⟨.nack msg.id, ()⟩ ∈ tr ∨ ⟨.nackLater msg.id, ()⟩ ∈ tr ∨
    ∃ result, ⟨.sendResult result, ()⟩ ∈ tr

lemma handleGated_setAside {msg : Message} {ir : InternalRequest} {r : GateReturn} {tr : Trace}
    {u : Unit} (hp : (handleGated msg ir r).Path tr u) (hproceeds : r.proceeds = false)
    (hwaits : r.waits = false) : SetAside msg tr := by
  unfold handleGated at hp
  split at hp
  · obtain rfl := path_perform hp
    exact ⟨by simp, .inl mem_cons_self⟩
  next v hv =>
    split at hp
    · obtain rfl := path_perform hp
      exact ⟨by simp, .inr (.inl mem_cons_self)⟩
    · obtain ⟨u₁, tr₁, rfl, hp₁⟩ := path_step hp
      obtain ⟨result, tr₂, rfl, hp₂⟩ := path_step hp₁
      refine ⟨?_, .inr (.inr ⟨_, mem_cons_self⟩)⟩
      cases result with
      | true | false =>
        obtain rfl := path_perform hp₂
        simp
    next hrefuse hdrop =>
      rcases GateReturn.proceeds_or_waits hv hrefuse hdrop with h | h
      · rw [h] at hproceeds
        cases hproceeds
      · rw [h] at hwaits
        cases hwaits

lemma handleGated_waiting {msg : Message} {ir : InternalRequest} {r : GateReturn}
    (hwaits : r.waits = true) : ∃ tr, (handleGated msg ir r).Path tr () ∧
      ⟨.sendRequest (ir.relabel r.req), ()⟩ ∈ tr := by
  obtain ⟨v, hv, haction⟩ := GateReturn.verdict_of_waits hwaits
  refine ⟨[⟨.sendRequest (ir.relabel r.req), ()⟩, ⟨.receive msg.id, true⟩, ⟨.ack msg.id, ()⟩], ?_,
    mem_cons_self⟩
  unfold handleGated
  simp only [hv, haction]
  exact .act _ (.act _ (.act _ (.done _)))

/-- The flow respects its queue gate, for each request that the gate does not ask to wait, and can
hand on any other. -/
structure RespectsGate (locals : ℕ → LocalGate) (g : Gate) : Prop where
  sent : ∀ {sub : Subscription} {msg : Message} {tr : Trace}, (callback sub msg).Path tr () →
    (∀ req r, ⟨.apply req, r⟩ ∈ tr → ∃ trg, (g.apply locals req []).Path trg r) →
    ∀ {tr₁ ir' u tr₂}, tr = tr₁ ++ ⟨.sendRequest ir', u⟩ :: tr₂ →
    ∃ ir r, ⟨.apply (InternalRequest.gateRequest ir), r⟩ ∈ tr₁ ∧ ir' = ir.relabel r.req ∧
      (∃ trg, (g.apply locals ir.gateRequest []).Path trg r) ∧
      (r.waits = false → r.proceeds = true)
  setAside : ∀ {msg : Message} {ir : InternalRequest} {r : GateReturn} {tr : Trace} {u : Unit},
    (handleGated msg ir r).Path tr u → (∃ trg, (g.apply locals ir.gateRequest []).Path trg r) →
    r.proceeds = false → r.waits = false → SetAside msg tr
  waiting : ∀ {msg : Message} {ir : InternalRequest} {r : GateReturn}, r.waits = true → ∃ tr,
    (handleGated msg ir r).Path tr () ∧ ⟨.sendRequest (ir.relabel r.req), ()⟩ ∈ tr

lemma respectsGate (locals : ℕ → LocalGate) (g : Gate) : RespectsGate locals g := by
  refine ⟨fun {sub msg tr} hp hgate {tr₁ ir' u tr₂} htr => ?_,
    fun hp _ hproceeds hwaits => handleGated_setAside hp hproceeds hwaits, handleGated_waiting⟩
  obtain ⟨ir, r, hmem, hthrough, hrelabel⟩ :=
    (callback_admits sub msg).path hp tr₁ (.sendRequest ir') u tr₂ htr
  have hmem' : (⟨.apply ir.gateRequest, r⟩ : Sigma Action.Reply) ∈ tr := by
    rw [htr]
    exact mem_append_left _ hmem
  refine ⟨ir, r, hmem, hrelabel, hgate _ r hmem', fun hwaits => ?_⟩
  exact hthrough.resolve_right (by simp [hwaits])

end PubSub

/-- Take any tree of gates as a queue gate, and a request for which it does not return
`ActionWait`.  In each of the three flows, the request is handed to the request channel only if
`Apply` returned no error and `ActionContinue` for it; otherwise it is returned to the broker or
ends with a result.  A request for which the gate does return `ActionWait` can be handed on. -/
theorem queue_gates_are_respected (locals : ℕ → LocalGate) (g : Gate) :
    Redis.RespectsGate locals g ∧ SqlFlow.RespectsGate locals g ∧ PubSub.RespectsGate locals g :=
  ⟨Redis.respectsGate locals g, SqlFlow.respectsGate locals g, PubSub.respectsGate locals g⟩

/-! ### A quota gate without a free slot -/

/-- A quota gate with one slot for each tenant. -/
def slotGate : FlowControl.QuotaGate := ⟨0, "tenant", .concurrency, .blocking, 1, 0, ""⟩

def tenantA : Hash String String := Hash.hset .empty "tenant" "a"

/-- What it returns for a request of a tenant whose slot is taken. -/
def fullReturn (req : FlowControl.GateRequest) : GateReturn :=
  slotGate.finish "tenant:a" req [] (.ok none)

/-- What it returns for a request that gets the slot. -/
def slotReturn (req : FlowControl.GateRequest) : GateReturn :=
  slotGate.finish "tenant:a" req [] (.ok (some [⟨7, .slot 0 "tenant:a"⟩]))

/-- What `wait-on-refuse` over the gate returns. -/
def waitReturn (req : FlowControl.GateRequest) : GateReturn := (fullReturn req).waitOnRefuse

variable {locals : ℕ → LocalGate} {id : String} {labels : Hash String String}

lemma fullReturn_path : ((Gate.quota slotGate).apply locals ⟨id, tenantA, labels⟩ []).Path
    [⟨.acquireSlot 0 "tenant:a" 1, .ok none⟩] (fullReturn ⟨id, tenantA, labels⟩) :=
  .act _ (.done _)

lemma slotReturn_path : ((Gate.quota slotGate).apply locals ⟨id, tenantA, labels⟩ []).Path
    [⟨.acquireSlot 0 "tenant:a" 1, .ok (some 7)⟩] (slotReturn ⟨id, tenantA, labels⟩) :=
  .act _ (.done _)

lemma waitReturn_path :
    ((Gate.waitOnRefuse (.quota slotGate)).apply locals ⟨id, tenantA, labels⟩ []).Path
      [⟨.acquireSlot 0 "tenant:a" 1, .ok none⟩] (waitReturn ⟨id, tenantA, labels⟩) :=
  .act _ (.done _)

/-- A request of the sorted-set flow without a payload key. -/
def sortedSetRequest : Redis.InternalRequest :=
  ⟨"r", 100, none, ⟨0, "q", "t", "q", "", 0, true, 0, "", []⟩⟩

/-- An answer of the gate, as the sorted-set flow sees it. -/
def overflowAnswer (wait : Bool) : Redis.GateAnswer sortedSetRequest where
  verdict := some (if wait then .wait else .refuse)
  releases := []
  labels := [("classification", "overflow")]
  own_id := by cases wait <;> simp

/-- The configuration of the sorted-set flow. -/
def sortedSetConfig : Redis.FlowConfig := ⟨false, 1, 1, "", ""⟩

/-- The sorted-set flow claims the request and sends it. -/
def sortedSetWait : Redis.Trace Unit :=
  [⟨.ask (.gate sortedSetRequest), overflowAnswer true⟩,
    ⟨.newClaimToken sortedSetRequest.claimKey, some "c"⟩, ⟨.ask .now, (0 : ℤ)⟩,
    ⟨.ask .resends, (0 : ℕ)⟩,
    ⟨.redis (.claim "q" sortedSetRequest.claimKey () "c"
      (Redis.claimExpiryAt sortedSetConfig 0 100)), some true⟩,
    ⟨.storeHandle ⟨"c", "q", 100, "r", "t"⟩, ()⟩,
    ⟨.sendRequest ⟨{ sortedSetRequest with routing := { sortedSetRequest.routing with
      labels := [("classification", "overflow")] } }, "c"⟩, true⟩]

/-- A row of the sql flow and its request. -/
def sqlRow : SqlQueue.Request := ⟨⟨"r", "t"⟩, "q", 0, 1, 1, 100, "", [], false, 0⟩

def sqlRequest : SqlFlow.InternalRequest :=
  ⟨"r", tenantA, ⟨0, "q", "t", 1, "q", "", 0, true, .empty⟩⟩

def pubSubMessage : PubSub.Message := ⟨"m", "", [], none⟩

/-- A subscription whose data all decode to the same request. -/
def pubSubSubscription : PubSub.Subscription := ⟨"s", "", [], fun _ => some ⟨"r", tenantA, ""⟩⟩

def pubSubRequest : PubSub.InternalRequest :=
  PubSub.request pubSubSubscription pubSubMessage ⟨"r", tenantA, ""⟩

/-- A callback whose gate returns this, and whose request is handed on. -/
def handedOn (r : GateReturn) : PubSub.Trace :=
  [⟨.storeChannel "m", ()⟩, ⟨.apply pubSubRequest.gateRequest, r⟩,
    ⟨.sendRequest (pubSubRequest.relabel r.req), ()⟩, ⟨.receive "m", true⟩, ⟨.ack "m", ()⟩,
    ⟨.deleteChannel "m", ()⟩, ⟨.releaseGates r.releases, ()⟩]

/-- The slot is taken, `wait-on-refuse` makes the refusal `ActionWait`, and all three flows hand the
request to the request channel. -/
theorem closedWait_handed_on :
    (∀ id labels, ((Gate.waitOnRefuse (.quota slotGate)).apply (fun _ => ⟨1, .blocking⟩)
      ⟨id, tenantA, labels⟩ []).Path [⟨.acquireSlot 0 "tenant:a" 1, .ok none⟩]
        (waitReturn ⟨id, tenantA, labels⟩) ∧
      (waitReturn ⟨id, tenantA, labels⟩).proceeds = false) ∧
    (Redis.applyGate sortedSetConfig "q" sortedSetRequest ()).Path sortedSetWait .next ∧
    (SqlFlow.dispatchGated sqlRow sqlRequest (waitReturn sqlRequest.gateRequest) ⟨[], []⟩).Path
      [⟨.sendRequest (sqlRequest.relabel (waitReturn sqlRequest.gateRequest).req), true⟩]
      (true, ⟨[], []⟩) ∧
    (PubSub.callback pubSubSubscription pubSubMessage).Path
      (handedOn (waitReturn pubSubRequest.gateRequest)) () := by
  refine ⟨fun id labels => ⟨waitReturn_path, rfl⟩, ?_, ?_, ?_⟩
  · exact .act _ (.act _ (.act _ (.act _ (.act _ (.act _ (.act _ (.done _)))))))
  · exact .act _ (.done _)
  · exact .act _ (.act _ (.act _ (.act _ (.act _ (.act _ (.act _ (.done _)))))))

/-- A request that the gate refuses is set aside in each flow, and one that gets the slot is handed
on. -/
theorem slotGate_respected :
    (Redis.applyGate sortedSetConfig "q" sortedSetRequest ()).Path
      [⟨.ask (.gate sortedSetRequest), overflowAnswer false⟩, ⟨.releaseGates [], ()⟩] .next ∧
    Redis.SetAside "q" sortedSetRequest () [⟨.releaseGates [], ()⟩] .next ∧
    (SqlFlow.dispatchGated sqlRow sqlRequest (fullReturn sqlRequest.gateRequest) ⟨[], []⟩).Path []
      (true, ⟨[], [sqlRow.stamp]⟩) ∧
    SqlFlow.SetAside sqlRow ⟨[], []⟩ ⟨[], [sqlRow.stamp]⟩ [] ∧
    (PubSub.handleGated pubSubMessage pubSubRequest (fullReturn pubSubRequest.gateRequest)).Path
      [⟨.nackLater "m", ()⟩] () ∧
    PubSub.SetAside pubSubMessage [⟨.nackLater "m", ()⟩] ∧
    (PubSub.callback pubSubSubscription pubSubMessage).Path
      (handedOn (slotReturn pubSubRequest.gateRequest)) () ∧
    ∃ ir r, ⟨.apply (PubSub.InternalRequest.gateRequest ir), r⟩ ∈
        (handedOn (slotReturn pubSubRequest.gateRequest)).take 2 ∧
      pubSubRequest.relabel (slotReturn pubSubRequest.gateRequest).req = ir.relabel r.req ∧
      (r.waits = false → r.proceeds = true) := by
  obtain ⟨hredis, hsql, hpubSub⟩ :=
    queue_gates_are_respected (fun _ => ⟨1, .blocking⟩) (.quota slotGate)
  have hset : (Redis.applyGate sortedSetConfig "q" sortedSetRequest ()).Path
      [⟨.ask (.gate sortedSetRequest), overflowAnswer false⟩, ⟨.releaseGates [], ()⟩] .next :=
    .act _ (.act _ (.done _))
  have hrow : (SqlFlow.dispatchGated sqlRow sqlRequest (fullReturn sqlRequest.gateRequest)
      ⟨[], []⟩).Path [] (true, ⟨[], [sqlRow.stamp]⟩) := .done _
  have hnack : (PubSub.handleGated pubSubMessage pubSubRequest
      (fullReturn pubSubRequest.gateRequest)).Path [⟨.nackLater "m", ()⟩] () := .act _ (.done _)
  have hsend : (PubSub.callback pubSubSubscription pubSubMessage).Path
      (handedOn (slotReturn pubSubRequest.gateRequest)) () :=
    .act _ (.act _ (.act _ (.act _ (.act _ (.act _ (.act _ (.done _)))))))
  refine ⟨hset, hredis.setAside hset ⟨⟨"r", tenantA, .empty⟩, _, rfl, fullReturn_path, rfl⟩ rfl rfl,
    hrow, hsql.setAside hrow ⟨_, fullReturn_path⟩ rfl rfl, hnack,
    hpubSub.setAside hnack ⟨_, fullReturn_path⟩ rfl rfl, hsend, ?_⟩
  have hgate : ∀ req r, ⟨.apply req, r⟩ ∈ handedOn (slotReturn pubSubRequest.gateRequest) →
      ∃ trg, ((Gate.quota slotGate).apply (fun _ => ⟨1, .blocking⟩) req []).Path trg r := by
    intro req r hmem
    obtain ⟨rfl, rfl⟩ : req = pubSubRequest.gateRequest ∧
        r = slotReturn pubSubRequest.gateRequest := by
      simpa [handedOn] using hmem
    exact ⟨_, slotReturn_path⟩
  obtain ⟨ir, r, hmem, hrelabel, -, hproceeds⟩ := @PubSub.RespectsGate.sent _ _ hpubSub _ _ _ hsend
    hgate ((handedOn (slotReturn pubSubRequest.gateRequest)).take 2) _ _ _ rfl
  exact ⟨ir, r, hmem, hrelabel, hproceeds⟩

end LlmdAsync
