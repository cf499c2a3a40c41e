import LlmdAsync.Foundation.Table

/-!
# The fan-in of the random-robin policy

`poolFanIn` of `pkg/async/mergepolicy/randomrobin`.  One goroutine runs `run`: it takes a snapshot
of the sources, waits for the change channel and for all of them at once, and forwards what it
receives.  Sources are added under the mutex, and `run` removes those that are closed.  Each change
puts a token into the change channel unless there is one.

Steps are the accesses to `sources`, which need the mutex, and the channel operations, in any order.
A goroutine that has changed `sources` keeps the mutex until it has sent its token.  A step that is
not possible does nothing.  The queue depth metric is left out.
-/

namespace LlmdAsync.MergePolicy

/-- `RequestChannel`, as far as the fan-in and its stamp read it. -/
structure RequestChannel (κ : Type) where
  channel : κ
  igwBaseURL : String
  requestPathURL : String
  inferenceObjective : String
deriving DecidableEq

/-- `EmbelishedRequestMessage`. -/
structure EmbelishedRequestMessage (ρ : Type) where
  internalRequest : ρ
  httpHeaders : List (String × String)
  requestURL : String
  workerPoolID : String
deriving DecidableEq

/-- The arguments of `run`, with `ReqEndpoint` and `url.JoinPath`. -/
structure FanInConfig (κ ρ : Type) where
  stamp : RequestChannel κ → ρ → List (String × String)
  workerPoolID : String
  reqEndpoint : ρ → String
  joinPath : String → String → String

namespace FanInConfig

variable {κ ρ : Type} (cfg : FanInConfig κ ρ)

/-- `requestURL`. -/
def requestURL (chMeta : RequestChannel κ) (ir : ρ) : String :=
  cfg.joinPath chMeta.igwBaseURL
    (if cfg.reqEndpoint ir ≠ "" then cfg.reqEndpoint ir else chMeta.requestPathURL)

/-- The message that `run` sends for a request from a source. -/
def embelish (chMeta : RequestChannel κ) (ir : ρ) : EmbelishedRequestMessage ρ :=
  ⟨ir, cfg.stamp chMeta ir, cfg.requestURL chMeta ir, cfg.workerPoolID⟩

end FanInConfig

/-- Where `run` is. -/
inductive FanInLoop (κ ρ : Type) where
  /-- Before `snapshot`. -/
  | rebuild
  /-- In the select over the change channel and these sources, or at the change channel alone if
  there are none. -/
  | waiting (metas : List (RequestChannel κ))
  /-- It has found a source closed. -/
  | closed (c : κ)
  /-- It sends a request to `merged`. -/
  | sending (chMeta : RequestChannel κ) (ir : ρ)
deriving DecidableEq

/-- `poolFanIn` with its goroutine and the source channels.  A `none` in a channel is a nil
pointer.  What has been received is logged with the entry of its channel in `sources`. -/
structure FanIn (κ ρ : Type) where
  sources : Table (RequestChannel.channel (κ := κ))
  /-- Whoever holds the mutex has changed `sources` and is at `notifyChanged`. -/
  notifying : Bool
  changed : Bool
  queue : κ → List (Option ρ)
  isClosed : κ → Bool
  loop : FanInLoop κ ρ
  received : List (Option (RequestChannel κ) × Option ρ)
  merged : List (EmbelishedRequestMessage ρ)

inductive FanInStep (κ ρ : Type) where
  /-- `addSource` up to `notifyChanged`. -/
  | addSource (ch : RequestChannel κ)
  | notifyChanged
  | send (c : κ) (msg : Option ρ)
  | close (c : κ)
  /-- `snapshot`, which goes through the map in some order. -/
  | snapshot (metas : List (RequestChannel κ))
  /-- The change channel is chosen. -/
  | wake
  /-- The source with this index is chosen. -/
  | receive (i : ℕ)
  /-- `removeSource` up to `notifyChanged`. -/
  | removeSource
  /-- The send to `merged` goes through. -/
  | forward

namespace FanIn

variable {κ ρ : Type} [DecidableEq κ] (cfg : FanInConfig κ ρ)

/-- `newPoolFanIn`, and `run` has been started. -/
def initial : FanIn κ ρ := ⟨.empty, false, false, fun _ => [], fun _ => false, .rebuild, [], []⟩

def next (x : FanIn κ ρ) : FanInStep κ ρ → FanIn κ ρ
  | .addSource ch =>
    if x.notifying ∨ (x.sources.get? ch.channel).isSome then x
    else { x with sources := x.sources.insertNew ch, notifying := true }
  | .notifyChanged => if x.notifying then { x with notifying := false, changed := true } else x
  | .send c msg =>
    if x.isClosed c then x
    else { x with queue := Function.update x.queue c (x.queue c ++ [msg]) }
  | .close c => { x with isClosed := Function.update x.isClosed c true }
  | .snapshot metas =>
    match x.loop with
    | .rebuild =>
      if ¬x.notifying ∧ metas.Perm x.sources.rows then { x with loop := .waiting metas } else x
    | _ => x
  | .wake =>
    match x.loop, x.changed with
    | .waiting _, true => { x with loop := .rebuild, changed := false }
    | _, _ => x
  | .receive i =>
    match x.loop with
    | .waiting metas =>
      match metas[i]? with
      | none => x
      | some chMeta =>
        match x.queue chMeta.channel with
        | [] => if x.isClosed chMeta.channel then { x with loop := .closed chMeta.channel } else x
        | msg :: rest => { x with
            queue := Function.update x.queue chMeta.channel rest
            received := x.received ++ [(x.sources.get? chMeta.channel, msg)]
            loop := match msg with
              | none => .rebuild
              | some ir => .sending chMeta ir }
    | _ => x
  | .removeSource =>
    match x.loop with
    | .closed c =>
      if x.notifying then x
      else if (x.sources.get? c).isSome then
        { x with sources := x.sources.erase c, notifying := true, loop := .rebuild }
      else { x with loop := .rebuild }
    | _ => x
  | .forward =>
    match x.loop with
    | .sending chMeta ir =>
      { x with merged := x.merged ++ [cfg.embelish chMeta ir], loop := .rebuild }
    | _ => x

def run (x : FanIn κ ρ) (steps : List (FanInStep κ ρ)) : FanIn κ ρ := steps.foldl (next cfg) x

/-- What is being sent to `merged`. -/
def inTransit (x : FanIn κ ρ) : List (EmbelishedRequestMessage ρ) :=
  match x.loop with
  | .sending chMeta ir => [cfg.embelish chMeta ir]
  | _ => []

/-- What should come of what has been received: a message for each request, with the metadata that
its source is registered with. -/
def expected (x : FanIn κ ρ) : List (Option (EmbelishedRequestMessage ρ)) :=
  x.received.filterMap fun e => e.2.map fun ir => e.1.map fun chMeta => cfg.embelish chMeta ir

/-- What holds after every run. -/
structure Sound (x : FanIn κ ρ) : Prop where
  /-- A case list that is out of date comes with a token, or with one that is just being sent. -/
  current : ∀ metas, x.loop = .waiting metas →
    x.changed = true ∨ x.notifying = true ∨ metas.Perm x.sources.rows
  /-- Sources are only removed by the loop, so the ones it waits for are registered. -/
  known : ∀ metas, x.loop = .waiting metas → ∀ m ∈ metas, x.sources.get? m.channel = some m
  forwarded : x.expected cfg = (x.merged ++ x.inTransit cfg).map some

variable {cfg} {x : FanIn κ ρ}

lemma Sound.addSource (h : x.Sound cfg) (ch : RequestChannel κ) :
    (x.next cfg (.addSource ch)).Sound cfg := by
  simp only [FanIn.next]
  split
  · exact h
  · refine ⟨fun _ _ => .inr (.inl rfl), fun metas hloop m hm => ?_, h.forwarded⟩
    rw [Table.get?_insertNew, h.known metas hloop m hm, Option.some_or]

lemma Sound.receive (h : x.Sound cfg) (i : ℕ) : (x.next cfg (.receive i)).Sound cfg := by
  simp only [FanIn.next]
  split
  next metas hloop =>
    split
    · exact h
    next chMeta hi =>
      have hsrc := h.known metas hloop chMeta (List.mem_of_getElem? hi)
      have hsent : x.expected cfg = x.merged.map some := by
        simpa [inTransit, hloop] using h.forwarded
      split
      · split
        · exact ⟨by rintro _ ⟨⟩, by rintro _ ⟨⟩, by simpa [inTransit, expected] using hsent⟩
        · exact h
      next msg rest hqueue =>
        cases msg with
        | none => exact ⟨by rintro _ ⟨⟩, by rintro _ ⟨⟩, by simpa [inTransit, expected] using hsent⟩
        | some ir =>
          exact ⟨by rintro _ ⟨⟩, by rintro _ ⟨⟩, by simpa [inTransit, expected, hsrc] using hsent⟩
  · exact h

lemma Sound.next (h : x.Sound cfg) (step : FanInStep κ ρ) : (x.next cfg step).Sound cfg := by
  cases step with
  | addSource ch => exact h.addSource ch
  | receive i => exact h.receive i
  | notifyChanged =>
    simp only [FanIn.next]
    split
    · exact ⟨fun _ _ => .inl rfl, h.known, h.forwarded⟩
    · exact h
  | send c msg =>
    simp only [FanIn.next]
    split
    · exact h
    · exact ⟨h.current, h.known, h.forwarded⟩
  | close c => exact ⟨h.current, h.known, h.forwarded⟩
  | snapshot metas =>
    simp only [FanIn.next]
    split
    next hloop =>
      split
      next hperm =>
        refine ⟨?_, ?_, by simpa [inTransit, expected, hloop] using h.forwarded⟩
        · rintro _ ⟨⟩
          exact .inr (.inr hperm.2)
        · rintro _ ⟨⟩ m hm
          exact Table.mem_iff_get?.mp (hperm.2.mem_iff.mp hm)
      · exact h
    · exact h
  | wake =>
    simp only [FanIn.next]
    split
    next hloop _ =>
      exact ⟨by rintro _ ⟨⟩, by rintro _ ⟨⟩,
        by simpa [inTransit, expected, hloop] using h.forwarded⟩
    · exact h
  | removeSource =>
    simp only [FanIn.next]
    split
    next hloop =>
      have hsent : x.expected cfg = x.merged.map some := by
        simpa [inTransit, hloop] using h.forwarded
      split
      · exact h
      · split
        · exact ⟨by rintro _ ⟨⟩, by rintro _ ⟨⟩, by simpa [inTransit, expected] using hsent⟩
        · exact ⟨by rintro _ ⟨⟩, by rintro _ ⟨⟩, by simpa [inTransit, expected] using hsent⟩
    · exact h
  | forward =>
    simp only [FanIn.next]
    split
    next hloop =>
      exact ⟨by rintro _ ⟨⟩, by rintro _ ⟨⟩,
        by simpa [inTransit, expected, hloop] using h.forwarded⟩
    · exact h

lemma sound_run (cfg : FanInConfig κ ρ) (steps : List (FanInStep κ ρ)) :
    ((initial : FanIn κ ρ).run cfg steps).Sound cfg :=
  List.foldlRecOn (motive := Sound cfg) steps (next cfg) ⟨nofun, nofun, rfl⟩
    fun _ h step _ => h.next step

/-! ### Progress -/

/-- The send to `merged` goes through with the message of the request, and nothing else gets the
loop out of it. -/
lemma next_of_sending {chMeta : RequestChannel κ} {ir : ρ} (hloop : x.loop = .sending chMeta ir) :
    x.next cfg .forward =
        { x with merged := x.merged ++ [cfg.embelish chMeta ir], loop := .rebuild } ∧
      ∀ step ≠ .forward, (x.next cfg step).loop = .sending chMeta ir ∧
        (x.next cfg step).merged = x.merged := by
  refine ⟨by simp only [next, hloop], fun step hstep => ?_⟩
  cases step with
  | addSource ch =>
    simp only [next]
    split
    · exact ⟨hloop, rfl⟩
    · exact ⟨hloop, rfl⟩
  | notifyChanged =>
    simp only [next]
    split
    · exact ⟨hloop, rfl⟩
    · exact ⟨hloop, rfl⟩
  | send c msg =>
    simp only [next]
    split
    · exact ⟨hloop, rfl⟩
    · exact ⟨hloop, rfl⟩
  | close c => exact ⟨hloop, rfl⟩
  | snapshot metas => simp [next, hloop]
  | wake => simp [next, hloop]
  | receive i => simp [next, hloop]
  | removeSource => simp [next, hloop]
  | forward => exact absurd rfl hstep

/-- A request that is queued in one of the cases can be received. -/
lemma exists_receive {metas : List (RequestChannel κ)} (hloop : x.loop = .waiting metas)
    {chMeta : RequestChannel κ} (hmem : chMeta ∈ metas) {ir : ρ} {rest : List (Option ρ)}
    (hqueue : x.queue chMeta.channel = some ir :: rest) :
    ∃ i, (x.next cfg (.receive i)).loop = .sending chMeta ir ∧
      (x.next cfg (.receive i)).queue = Function.update x.queue chMeta.channel rest := by
  obtain ⟨i, hi⟩ := List.mem_iff_getElem?.mp hmem
  exact ⟨i, by simp [next, hloop, hi, hqueue]⟩

/-- After every run:

* Where the loop waits with cases that are not the sources, the change channel holds a token and
  gets the loop to rebuild them.  Only while the goroutine that has changed the sources still holds
  the mutex may its token be missing, and that is what it does next.
* What has been received has been forwarded once and in order, except for a message that is just
  being sent.
* A message that is being sent stays so until the send goes through, which adds it to `merged`.
* With the mutex free, the loop can wait for all sources, and receive what one of them has. -/
theorem fanIn_wakes_and_forwards (cfg : FanInConfig κ ρ) (steps : List (FanInStep κ ρ)) :
    let x : FanIn κ ρ := initial.run cfg steps
    (∀ metas, x.loop = .waiting metas → ¬metas.Perm x.sources.rows →
      (x.notifying = false → x.changed = true) ∧
        (x.run cfg [.notifyChanged, .wake]).loop = .rebuild) ∧
    x.expected cfg = (x.merged ++ x.inTransit cfg).map some ∧
    (∀ chMeta ir, x.loop = .sending chMeta ir →
      x.next cfg .forward =
          { x with merged := x.merged ++ [cfg.embelish chMeta ir], loop := .rebuild } ∧
        ∀ step ≠ .forward, (x.next cfg step).loop = .sending chMeta ir ∧
          (x.next cfg step).merged = x.merged) ∧
    (x.loop = .rebuild → x.notifying = false →
      (x.next cfg (.snapshot x.sources.rows)).loop = .waiting x.sources.rows) ∧
    ∀ metas, x.loop = .waiting metas → ∀ chMeta ∈ metas, ∀ ir rest,
      x.queue chMeta.channel = some ir :: rest →
        ∃ i, (x.next cfg (.receive i)).loop = .sending chMeta ir ∧
          (x.next cfg (.receive i)).queue = Function.update x.queue chMeta.channel rest := by
  intro x
  have hx : x.Sound cfg := sound_run cfg steps
  refine ⟨fun metas hloop hperm => ?_, hx.forwarded, fun _ _ => next_of_sending,
    fun hloop hfree => by simp [next, hloop, hfree],
    fun _ hloop _ hmem _ _ => exists_receive hloop hmem⟩
  cases hnotifying : x.notifying with
  | true => exact ⟨nofun, by simp [run, next, hloop, hnotifying]⟩
  | false =>
    have hchanged : x.changed = true := by
      simpa [hnotifying, hperm] using hx.current metas hloop
    exact ⟨fun _ => hchanged, by simp [run, next, hloop, hnotifying, hchanged]⟩

/-- A stamp with the objective of the source, and addresses put together as they are. -/
def objectiveConfig : FanInConfig String String :=
  ⟨fun ch _ => [("objective", ch.inferenceObjective)], "pool", id, fun base path => base ++ path⟩

/-- A source is added while the loop waits without one, and a request and a nil are sent to it. -/
def lateSource : List (FanInStep String String) :=
  [.snapshot [], .addSource ⟨"c", "igw", "/v1", "batch"⟩, .notifyChanged,
    .send "c" (some "/v2"), .send "c" none, .wake,
    .snapshot [⟨"c", "igw", "/v1", "batch"⟩], .receive 0]

/-- The token that the source leaves gets the loop to it, and the request is forwarded with the
objective of its source. -/
theorem lateSource_forwarded :
    let x : FanIn String String := initial.run objectiveConfig lateSource
    x.inTransit objectiveConfig =
        [⟨"/v2", [("objective", "batch")], "igw/v2", "pool"⟩] ∧
      (x.next objectiveConfig .forward).merged =
        [⟨"/v2", [("objective", "batch")], "igw/v2", "pool"⟩] ∧
      (x.next objectiveConfig .wake).merged = [] := by
  obtain ⟨-, -, hsending, -⟩ := fanIn_wakes_and_forwards objectiveConfig lateSource
  obtain ⟨hforward, hother⟩ :=
    hsending ⟨"c", "igw", "/v1", "batch"⟩ "/v2" (by decide)
  refine ⟨by decide, ?_, ?_⟩
  · rw [hforward]
    decide
  · rw [(hother .wake (by rintro ⟨⟩)).2]
    decide

end FanIn

end LlmdAsync.MergePolicy
