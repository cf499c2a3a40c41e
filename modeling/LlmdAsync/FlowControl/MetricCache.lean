import Mathlib

/-!
# The metric cache

`CachedMetricSource.Query` (`cached_metric_source.go`) and `Budget` of `MetricDispatchGate`.  The
cache keeps errors like results, for the whole TTL, and an error may be that the context of the
caller that refreshed the cache has ended.  A caller that looks the cache up in that time gets the
error of the other context; a caller that looks it up later does not.
-/

namespace LlmdAsync.FlowControl.MetricCache

open List

/-- Why a query fails.  Contexts are named by numbers. -/
inductive QueryError where
  /-- The context ended while the caller waited for the lock. -/
  | waiting (ctx : ℕ)
  /-- The context that the source was given has ended. -/
  | context (ctx : ℕ)
  | failed (e : String)
deriving DecidableEq

/-- The context whose end is the cause of an error. -/
def QueryError.cause : QueryError → Option ℕ
  | .waiting ctx | .context ctx => some ctx
  | .failed _ => none

/-- The samples of a query, by their values; `none` is a value that is not finite. -/
abbrev Answer := Except QueryError (List (Option ℚ))

inductive Event where
  | looked (ctx : ℕ) (now : ℤ)
  | stored (r : Answer) (now : ℤ)
  | returned (ctx : ℕ) (r : Answer)
deriving DecidableEq

/-- The cache, the clock and the contexts that have ended.  The caller that has `queryLock` and asks
the source is known by its context and the time it read. -/
structure State where
  clock : ℤ
  ended : List ℕ
  asking : Option (ℕ × ℤ)
  result : Answer
  expiry : ℤ
  log : List Event

/-- The state after `NewCachedMetricSource`. -/
def State.initial : State := ⟨0, [], none, .ok [], 0, []⟩

inductive Step where
  | tick (n : ℕ)
  | cancel (ctx : ℕ)
  /-- The second case of the `select` of `Query`. -/
  | giveUp (ctx : ℕ)
  /-- `Query` takes the lock and looks the cache up. -/
  | look (ctx : ℕ)
  /-- `source.Query` returns this, unless its context has ended. -/
  | answer (r : Except String (List (Option ℚ)))

def State.next (ttl : ℤ) (s : State) : Step → State
  | .tick n => { s with clock := s.clock + n }
  | .cancel ctx => { s with ended := ctx :: s.ended }
  | .giveUp ctx =>
    if ctx ∈ s.ended then { s with log := s.log ++ [.returned ctx (.error (.waiting ctx))] } else s
  | .look ctx =>
    if s.asking.isSome then s
    else if s.clock < s.expiry then
      { s with log := s.log ++ [.looked ctx s.clock, .returned ctx s.result] }
    else { s with asking := some (ctx, s.clock), log := s.log ++ [.looked ctx s.clock] }
  | .answer r =>
    match s.asking with
    | none => s
    | some (ctx, now) =>
      let r := if ctx ∈ s.ended then .error (.context ctx) else r.mapError .failed
      { s with
        asking := none
        result := r
        expiry := now + ttl
        log := s.log ++ [.stored r now, .returned ctx r] }

def run (ttl : ℤ) (steps : List Step) : State := steps.foldl (State.next ttl) .initial

/-- Why a gate uses its fallback. -/
inductive Fallback where
  | source (e : QueryError)
  | noSamples
  | invalid

/-- The fallback that `NewMetricDispatchGate` stores. -/
def clamped (fallback : ℚ) : ℚ := max 0 (min 1 fallback)

/-- `Budget` of a `MetricDispatchGate` that was made with these arguments, after its query, and why
it is the fallback. -/
def budget (threshold fallback : ℚ) : Answer → ℚ × Option Fallback
  | .error e => (clamped fallback, some (.source e))
  | .ok [] => (clamped fallback, some .noSamples)
  | .ok (none :: _) => (clamped fallback, some .invalid)
  | .ok (some value :: _) =>
    (if value ≤ threshold then 0 else min 1 (max 0 (value - threshold)), none)

/-- An error of another context has expired when the cache is looked up. -/
def apart (ttl : ℤ) : Event → Event → Bool
  | .stored (.error e) n, .looked ctx m => e.cause.all fun d => d = ctx ∨ n + ttl ≤ m
  | _, _ => true

/-- An error that the end of a context has caused is about the context of the caller. -/
def Own (ctx : ℕ) (r : Answer) (ended : List ℕ) : Prop :=
  ∀ e d, r = .error e → e.cause = some d → d = ctx ∧ d ∈ ended

/-- What is known as long as errors of other contexts are not looked up. -/
structure Sound (ttl : ℤ) (s : State) : Prop where
  cached : ∀ e d, s.result = .error e → e.cause = some d →
    d ∈ s.ended ∧ ∃ n, .stored s.result n ∈ s.log ∧ s.expiry = n + ttl
  returned : ∀ ctx r, .returned ctx r ∈ s.log → Own ctx r s.ended

variable {ttl : ℤ} {ctx : ℕ} {r : Answer} {s : State}

/-- What is found in the cache, by a caller to whom it applies. -/
lemma Sound.found (h : Sound ttl s) (hnow : s.clock < s.expiry)
    (hapart : ∀ e ∈ s.log, apart ttl e (.looked ctx s.clock)) : Own ctx s.result s.ended := by
  intro e d hr hd
  obtain ⟨hended, n, hstored, hexpiry⟩ := h.cached e d hr hd
  have hlook := hapart _ hstored
  rw [hr] at hlook
  simp only [apart, hd, Option.all_some, decide_eq_true_eq] at hlook
  exact ⟨hlook.resolve_right (by omega), hended⟩

/-- What the source answers. -/
lemma own_answer (ctx : ℕ) (ended : List ℕ) (r : Except String (List (Option ℚ))) :
    Own ctx (if ctx ∈ ended then .error (.context ctx) else r.mapError .failed) ended := by
  intro e d hr hd
  split at hr
  next hended =>
    cases hr
    cases hd
    exact ⟨rfl, hended⟩
  next =>
    cases r <;> cases hr
    cases hd

/-- New events after which the cache is as before. -/
lemma Sound.noted (h : Sound ttl s) {new : List Event}
    (hnew : ∀ ctx r, .returned ctx r ∈ new → Own ctx r s.ended) :
    Sound ttl { s with log := s.log ++ new } where
  cached e d hr hd := by
    obtain ⟨hended, n, hstored, hexpiry⟩ := h.cached e d hr hd
    exact ⟨hended, n, mem_append_left _ hstored, hexpiry⟩
  returned ctx r hr := (mem_append.mp hr).elim (h.returned ctx r) (hnew ctx r)

lemma log_grows (s : State) (step : Step) : s.log <+: (s.next ttl step).log := by
  cases step with
  | tick n | cancel ctx => exact prefix_refl _
  | giveUp ctx | look ctx | answer r =>
    simp only [State.next]
    repeat' split
    all_goals first | exact prefix_refl _ | exact prefix_append _ _

lemma Sound.next (h : Sound ttl s) (step : Step)
    (hapart : (s.next ttl step).log.Pairwise (apart ttl · ·)) : Sound ttl (s.next ttl step) := by
  cases step with
  | tick n => exact ⟨h.cached, h.returned⟩
  | cancel ctx =>
    refine ⟨fun e d hr hd => ?_, fun c r hr e d he hd => ?_⟩
    · obtain ⟨hended, hstored⟩ := h.cached e d hr hd
      exact ⟨mem_cons_of_mem _ hended, hstored⟩
    · obtain ⟨hd, hended⟩ := h.returned c r hr e d he hd
      exact ⟨hd, mem_cons_of_mem _ hended⟩
  | giveUp ctx =>
    simp only [State.next]
    split
    next hended =>
      refine h.noted fun c r hr e d he hd => ?_
      cases mem_singleton.mp hr
      cases he
      cases hd
      exact ⟨rfl, hended⟩
    next => exact h
  | look ctx =>
    simp only [State.next] at hapart ⊢
    split
    next => exact h
    next hasking =>
      rw [if_neg hasking] at hapart
      split
      next hnow =>
        rw [if_pos hnow] at hapart
        have hlook := fun e he => (pairwise_append.mp hapart).2.2 e he _ mem_cons_self
        refine h.noted fun c r hr => ?_
        simp only [mem_cons, reduceCtorEq, Event.returned.injEq, false_or, not_mem_nil,
          or_false] at hr
        obtain ⟨rfl, rfl⟩ := hr
        exact h.found hnow hlook
      next =>
        have hnoted : Sound ttl { s with log := s.log ++ [.looked ctx s.clock] } :=
          h.noted (by simp)
        exact ⟨hnoted.cached, hnoted.returned⟩
  | answer r =>
    simp only [State.next]
    split
    next => exact h
    next c now hasking =>
      have hown := own_answer c s.ended r
      refine ⟨fun e d hr hd => ⟨(hown e d hr hd).2, now, ?_, rfl⟩, fun c' r' hr' => ?_⟩
      · exact mem_append_right _ mem_cons_self
      · simp only [mem_append, mem_cons, reduceCtorEq, Event.returned.injEq, false_or, not_mem_nil,
          or_false] at hr'
        rcases hr' with hr' | ⟨rfl, rfl⟩
        · exact h.returned c' r' hr'
        · exact hown

lemma sound_run (steps : List Step) (hapart : (run ttl steps).log.Pairwise (apart ttl · ·)) :
    Sound ttl (run ttl steps) := by
  induction steps using reverseRecOn with
  | nil => exact ⟨nofun, nofun⟩
  | append_singleton steps step ih =>
    rw [run, foldl_append, foldl_cons, foldl_nil] at hapart ⊢
    exact (ih (hapart.sublist (log_grows _ step).sublist)).next step hapart

/-- If no error that the end of a context caused is looked up by another caller before it expires,
a caller gets such an error only for its own context and after that has ended, and for no other
context its gate falls back. -/
theorem metric_cache_isolates (steps : List Step)
    (hapart : (run ttl steps).log.Pairwise (apart ttl · ·))
    (hr : .returned ctx r ∈ (run ttl steps).log) {e : QueryError} {d : ℕ} (hd : e.cause = some d)
    (he : r = .error e ∨ ∃ threshold fallback,
      (budget threshold fallback r).2 = some (.source e)) :
    d = ctx ∧ ctx ∈ (run ttl steps).ended := by
  have hre : r = .error e := by
    refine he.elim id fun ⟨threshold, fallback, hsource⟩ => ?_
    unfold budget at hsource
    split at hsource <;> cases hsource
    rfl
  obtain ⟨rfl, hended⟩ := (sound_run steps hapart).returned ctx r hr e d hre hd
  exact ⟨rfl, hended⟩

/-- A caller gives up while the source is asked for it, and another one comes 5 ns later. -/
def twoCallers : List Step :=
  [.look 7, .cancel 7, .answer (.ok [some 1]), .tick 5, .look 8, .answer (.ok [some 1])]

theorem expired_error_own : 7 ∈ (run 5 twoCallers).ended ∧
    .returned 8 (.ok [some 1]) ∈ (run 5 twoCallers).log := by
  have hr : .returned 7 (.error (.context 7)) ∈ (run 5 twoCallers).log := by decide
  exact ⟨(metric_cache_isolates twoCallers (by decide) hr rfl (.inl rfl)).2, by decide⟩

/-- With a longer TTL the second caller, whose context is live, gets the error of the first. -/
theorem foreign_error_cached : .returned 8 (.error (.context 7)) ∈ (run 6 twoCallers).log ∧
    8 ∉ (run 6 twoCallers).ended := by
  decide

end LlmdAsync.FlowControl.MetricCache
