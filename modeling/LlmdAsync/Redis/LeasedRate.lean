import LlmdAsync.Foundation.Hash
import LlmdAsync.Foundation.TokenBucket

/-!
# The leased rate

`pkg/redis/leased_rate_gate.go`: a token bucket in Redis, shared by all replicas, whose rate comes
from a command that a controller leases.  Numbers are rational, so that the checks for infinities
and `NaN` have nothing to find; `tonumber` stands for Lua's conversion of a field.

The state key expires a second after the lease.  The bucket is then created full again, whether or
not it would have been full by now, and a clock that has stepped back is not noticed.  Where the
state key keeps all that the bucket needs (`heeds`), the bucket is a token bucket over the highest
value the clock has reached (`Sound`).
-/

namespace LlmdAsync.Redis

/-! ### The script -/

/-- `api.DispatchRateLimitAPIVersion`. -/
def dispatchRateLimitAPIVersion : String := "llm-d.ai/v1alpha1"

/-- What the gate passes to the script. -/
structure LeasedRateGate where
  poolID : String
  burstSeconds : ℚ

/-- The state key: its two fields, and when Redis drops it. -/
structure Bucket where
  tokens : ℚ
  lastMs : ℤ
  expireAt : ℤ
deriving DecidableEq

/-- What the script returns. -/
structure LeasedRateResult where
  allowed : Bool
  leaseValid : Bool
  rate : ℚ
  validUntil : ℤ
deriving DecidableEq

/-- `{0, 0, "0", 0}`. -/
def LeasedRateResult.closed : LeasedRateResult := ⟨false, false, 0, 0⟩

namespace LeasedRateGate

/-- A field of the command; an empty one is as good as a missing one. -/
def field (command : Hash String String) (name : String) : Option String :=
  (Hash.hget command name).filter fun v => decide (v ≠ "")

/-- The rate and the end of the lease, if the command is for this pool and valid now. -/
def readLease (g : LeasedRateGate) (tonumber : String → Option ℚ) (command : Hash String String)
    (now : ℤ) : Option (ℚ × ℤ) := do
  let apiVersion ← field command "api_version"
  let poolID ← field command "pool_id"
  let rps ← field command "max_admission_rps"
  let until_ ← field command "valid_until_unix_ms"
  let _ ← field command "decision_id"
  guard (apiVersion = dispatchRateLimitAPIVersion ∧ poolID = g.poolID)
  let rate ← tonumber rps
  let validUntil ← tonumber until_
  guard (0 ≤ rate ∧ validUntil.den = 1 ∧ now < validUntil.num ∧ 0 < g.burstSeconds)
  return (rate, validUntil.num)

/-- `capacity`. -/
def capacity (g : LeasedRateGate) (rate : ℚ) : ℚ := max 1 (rate * g.burstSeconds)

/-- The bucket before the admission: full if there is no state key, else refilled. -/
def refill (g : LeasedRateGate) (rate : ℚ) (now : ℤ) : Option Bucket → ℚ × ℤ
  | none => (g.capacity rate, now)
  | some b =>
    let now := max now b.lastMs
    (min (g.capacity rate) (b.tokens + ((now - b.lastMs : ℤ) : ℚ) / 1000 * rate), now)

/-- `leasedRateAcquireScript`, given the state key as Redis finds it: what it returns, and the
bucket it writes, if it writes one. -/
def acquire (g : LeasedRateGate) (tonumber : String → Option ℚ) (command : Hash String String)
    (state : Option Bucket) (now : ℤ) : LeasedRateResult × Option Bucket :=
  match g.readLease tonumber command now with
  | none => (.closed, none)
  | some (rate, validUntil) =>
    if rate = 0 then (⟨false, true, 0, validUntil⟩, none)
    else
      let (tokens, last) := g.refill rate now state
      let allowed := decide (1 ≤ tokens)
      let tokens := if allowed then tokens - 1 else tokens
      (⟨allowed, true, rate, validUntil⟩,
        some ⟨tokens, last, now + max 1000 (validUntil - now + 1000)⟩)

end LeasedRateGate

/-! ### Runs -/

/-- Redis, as the gates of all replicas and the controller see it, and the history of a run. -/
structure LeaseWorld where
  command : Hash String String
  state : Option Bucket
  clock : ℤ
  /-- The highest value the clock has reached. -/
  peak : ℤ
  /-- The bucket as the last script wrote it, also after the key has expired. -/
  written : Option Bucket
  /-- The peak at each admission, oldest first. -/
  admitted : List ℤ

inductive LeaseStep where
  /-- The clock shows another time, and Redis deletes keys that have expired, or does not yet. -/
  | clock (ms : ℤ) (sweep : Bool)
  /-- The controller replaces the command. -/
  | lease (command : Hash String String)
  /-- A replica runs the script. -/
  | apply

namespace LeaseWorld

def initial (clock : ℤ) : LeaseWorld := ⟨.empty, none, clock, clock, none, []⟩

def found (w : LeaseWorld) : Option Bucket := w.state.filter fun b => decide (w.clock ≤ b.expireAt)

def next (g : LeasedRateGate) (tonumber : String → Option ℚ) (w : LeaseWorld) :
    LeaseStep → LeaseWorld
  | .clock ms sweep =>
    let w := { w with clock := ms, peak := max w.peak ms }
    if sweep then { w with state := w.found } else w
  | .lease command => { w with command := command }
  | .apply =>
    let r := g.acquire tonumber w.command w.found w.clock
    { w with
      state := r.2.or w.state
      written := r.2.or w.written
      admitted := if r.1.allowed then w.admitted ++ [w.peak] else w.admitted }

/-- The bucket that a script wrote is full by now. -/
def refilled (g : LeasedRateGate) (rate : ℚ) (now : ℤ) (b : Bucket) : Bool :=
  decide (g.capacity rate ≤ b.tokens + ((now - b.lastMs : ℤ) : ℚ) / 1000 * rate)

/-- If the step looks at the bucket, the state key tells it all it needs: a clock behind its highest
value is behind `last_ms`, which is that value, and a state key that has expired held a bucket that
would be full by now. -/
def heeds (g : LeasedRateGate) (tonumber : String → Option ℚ) (w : LeaseWorld) : LeaseStep → Bool
  | .apply =>
    match g.readLease tonumber w.command w.clock with
    | none => true
    | some (rate, _) =>
      decide (rate = 0) || match w.found with
        | some b => decide (w.clock = w.peak) || decide (b.lastMs = w.peak)
        | none => decide (w.clock = w.peak) && w.written.all (refilled g rate w.clock)
  | _ => true

def heeding (g : LeasedRateGate) (tonumber : String → Option ℚ) :
    LeaseWorld → List LeaseStep → Bool
  | _, [] => true
  | w, s :: steps => w.heeds g tonumber s && heeding g tonumber (w.next g tonumber s) steps

end LeaseWorld

/-- Commands carry this rate, if any. -/
def LeaseStep.AtRate (tonumber : String → Option ℚ) (rate : ℚ) : LeaseStep → Prop
  | .lease command => ∀ v q, Hash.hget command "max_admission_rps" = some v →
    tonumber v = some q → q = rate
  | _ => True

/-! ### The bucket over the highest value of the clock -/

namespace LeaseWorld

variable {g : LeasedRateGate} {tonumber : String → Option ℚ} {rate : ℚ} {w : LeaseWorld}

/-- The tokens of the bucket that the last script wrote, refilled up to the highest value of the
clock. -/
def level (g : LeasedRateGate) (rate : ℚ) (w : LeaseWorld) : ℚ :=
  match w.written with
  | none => g.capacity rate
  | some b => bucketLevel (g.capacity rate) (rate / 1000) b.tokens b.lastMs w.peak

/-- What is known of a run whose commands carry one rate. -/
structure Sound (g : LeasedRateGate) (tonumber : String → Option ℚ) (rate : ℚ) (w : LeaseWorld) :
    Prop where
  /-- The command carries the rate. -/
  atRate : ∀ v q, Hash.hget w.command "max_admission_rps" = some v → tonumber v = some q → q = rate
  /-- The clock is not ahead of its highest value. -/
  clock_le : w.clock ≤ w.peak
  /-- The state key is what the last script wrote. -/
  known : ∀ b, w.state = some b → w.written = some b
  /-- So is its time. -/
  last_le : ∀ b, w.written = some b → b.lastMs ≤ w.peak
  /-- The bucket neither overflows nor is overdrawn. -/
  tokens : ∀ b, w.written = some b → 0 ≤ b.tokens ∧ b.tokens ≤ g.capacity rate
  /-- The admissions so far. -/
  metered : Metered (g.capacity rate) (rate / 1000) w.peak (w.level g rate) w.admitted

lemma capacity_nonneg (g : LeasedRateGate) (rate : ℚ) : 0 ≤ g.capacity rate :=
  zero_le_one.trans (le_max_left _ _)

lemma perMs_nonneg (hrate : 0 < rate) : 0 ≤ rate / 1000 := by
  linarith

namespace Sound

lemma initial (hrate : 0 < rate) (clock : ℤ) : Sound g tonumber rate (.initial clock) where
  atRate v q hv := by cases hv
  clock_le := le_refl clock
  known b hb := by cases hb
  last_le b hb := by cases hb
  tokens b hb := by cases hb
  metered := Metered.full (capacity_nonneg g rate) (perMs_nonneg hrate) clock

lemma readLease_rate (h : Sound g tonumber rate w) {rate' : ℚ} {validUntil : ℤ}
    (hlease : g.readLease tonumber w.command w.clock = some (rate', validUntil)) :
    rate' = rate := by
  simp only [LeasedRateGate.readLease, Option.bind_eq_bind, Option.bind_eq_some_iff] at hlease
  obtain ⟨_, -, _, -, rps, hrps, _, -, _, -, _, -, q, hq, _, -, _, -, hreturn⟩ := hlease
  have heq : q = rate' := congrArg Prod.fst (Option.some.inj hreturn)
  exact heq ▸ h.atRate rps q (Option.filter_eq_some_iff.mp hrps).1 hq

lemma clock (h : Sound g tonumber rate w) (hrate : 0 < rate) (ms : ℤ) (sweep : Bool) :
    Sound g tonumber rate (w.next g tonumber (.clock ms sweep)) := by
  have hpeak : w.peak ≤ max w.peak ms := le_max_left _ _
  have hlast : ∀ b, w.written = some b → b.lastMs ≤ max w.peak ms :=
    fun b hb => (h.last_le b hb).trans hpeak
  have hmetered : Metered (g.capacity rate) (rate / 1000) (max w.peak ms)
      (level g rate { w with peak := max w.peak ms }) w.admitted := by
    have hold := h.metered
    have hr := perMs_nonneg hrate
    simp only [level] at hold ⊢
    cases hwritten : w.written with
    | none =>
      simp only [hwritten] at hold ⊢
      exact hold.advance hr hpeak hold.level_nonneg hold.level_le
        (le_add_of_nonneg_right (Metered.gain_nonneg hr hpeak))
    | some b =>
      simp only [hwritten] at hold ⊢
      exact hold.advance hr hpeak
        (bucketLevel_nonneg (capacity_nonneg g rate) hr (h.tokens b hwritten).1 (hlast b hwritten))
        bucketLevel_le (bucketLevel_advance hr hpeak)
  have hmoved : Sound g tonumber rate { w with clock := ms, peak := max w.peak ms } :=
    ⟨h.atRate, le_max_right _ _, h.known, hlast, h.tokens, hmetered⟩
  simp only [next]
  split
  · refine ⟨hmoved.atRate, hmoved.clock_le, fun b hb => ?_, hmoved.last_le, hmoved.tokens,
      hmoved.metered⟩
    exact h.known b (Option.filter_eq_some_iff.mp hb).1
  · exact hmoved

lemma refill_eq (h : Sound g tonumber rate w)
    (hheeds : match w.found with
      | some b => (decide (w.clock = w.peak) || decide (b.lastMs = w.peak)) = true
      | none => (decide (w.clock = w.peak) && w.written.all (refilled g rate w.clock)) = true) :
    g.refill rate w.clock w.found = (w.level g rate, w.peak) := by
  cases hfound : w.found with
  | none =>
    simp only [hfound, Bool.and_eq_true, decide_eq_true_eq, Option.all_eq_true] at hheeds
    obtain ⟨hclock, hfull⟩ := hheeds
    simp only [LeasedRateGate.refill, level]
    cases hwritten : w.written with
    | none => rw [hclock]
    | some b =>
      have hle := hfull b hwritten
      rw [refilled, decide_eq_true_eq, hclock] at hle
      simp only [bucketLevel]
      rw [min_eq_left, hclock]
      calc g.capacity rate ≤ b.tokens + ((w.peak - b.lastMs : ℤ) : ℚ) / 1000 * rate := hle
        _ = b.tokens + rate / 1000 * ((w.peak - b.lastMs : ℤ) : ℚ) := by ring
  | some b =>
    simp only [hfound, Bool.or_eq_true, decide_eq_true_eq] at hheeds
    have hwritten := h.known b (Option.filter_eq_some_iff.mp hfound).1
    have hlast := h.last_le b hwritten
    have hclock := h.clock_le
    have hnow : max w.clock b.lastMs = w.peak := by omega
    simp only [LeasedRateGate.refill, level, hwritten, hnow, bucketLevel]
    rw [div_mul_comm, mul_comm]

lemma apply (h : Sound g tonumber rate w) (hrate : 0 < rate)
    (hheeds : w.heeds g tonumber .apply = true) :
    Sound g tonumber rate (w.next g tonumber .apply) := by
  have hr := perMs_nonneg hrate
  simp only [heeds] at hheeds
  simp only [next, LeasedRateGate.acquire]
  cases hlease : g.readLease tonumber w.command w.clock with
  | none => exact h
  | some lease =>
    obtain ⟨rate', validUntil⟩ := lease
    obtain rfl := h.readLease_rate hlease
    have hne : rate' ≠ 0 := ne_of_gt hrate
    have hrefill : g.refill rate' w.clock w.found = (w.level g rate', w.peak) := by
      refine h.refill_eq ?_
      simp only [hlease, decide_eq_false hne, Bool.false_or] at hheeds
      split at hheeds <;> exact hheeds
    have hmetered := h.metered
    generalize w.level g rate' = tokens at hrefill hmetered
    simp only [if_neg hne, hrefill, Option.some_or]
    -- The bucket is written at the highest value of the clock, so its level is its tokens.
    by_cases hone : 1 ≤ tokens
    · have htaken := hmetered.take hr hone
      simp only [decide_eq_true hone, if_true]
      refine ⟨h.atRate, h.clock_le, fun b hb => hb, ?_, ?_, ?_⟩
      · rintro b hb
        cases hb
        exact le_refl _
      · rintro b hb
        cases hb
        exact ⟨htaken.level_nonneg, htaken.level_le⟩
      · simp only [level, bucketLevel_self htaken.level_le]
        exact htaken
    · simp only [decide_eq_false hone, Bool.false_eq_true, if_false]
      refine ⟨h.atRate, h.clock_le, fun b hb => hb, ?_, ?_, ?_⟩
      · rintro b hb
        cases hb
        exact le_refl _
      · rintro b hb
        cases hb
        exact ⟨hmetered.level_nonneg, hmetered.level_le⟩
      · simp only [level, bucketLevel_self hmetered.level_le]
        exact hmetered

lemma run (h : Sound g tonumber rate w) (hrate : 0 < rate) {steps : List LeaseStep}
    (hsteps : ∀ s ∈ steps, s.AtRate tonumber rate) (hheeding : w.heeding g tonumber steps = true) :
    Sound g tonumber rate (steps.foldl (next g tonumber) w) := by
  induction steps generalizing w with
  | nil => exact h
  | cons s steps ih =>
    simp only [heeding, Bool.and_eq_true] at hheeding
    refine ih ?_ (fun s' hs' => hsteps s' (List.mem_cons_of_mem s hs')) hheeding.2
    cases s with
    | clock ms sweep => exact h.clock hrate ms sweep
    | lease command => exact { h with atRate := hsteps _ List.mem_cons_self }
    | apply => exact h.apply hrate hheeding.1

end Sound

end LeaseWorld

/-- In every run of any number of replicas with commands of one rate and with one burst, whose steps
heed the bucket: the admissions between two times of the highest value of the clock are at most as
many as the capacity and the rate allow. -/
theorem leased_rate_bound {g : LeasedRateGate} {tonumber : String → Option ℚ} {rate : ℚ}
    (hrate : 0 < rate) {steps : List LeaseStep} (hsteps : ∀ s ∈ steps, s.AtRate tonumber rate)
    {clock : ℤ} (hheeding : (LeaseWorld.initial clock).heeding g tonumber steps = true)
    {t₁ t₂ : ℤ} (hle : t₁ ≤ t₂) :
    let w := steps.foldl (LeaseWorld.next g tonumber) (.initial clock)
    (admissionsIn w.admitted t₁ t₂ : ℚ) ≤
      max 1 (rate * g.burstSeconds) + rate * ((t₂ - t₁ : ℤ) : ℚ) / 1000 := by
  intro w
  have h : LeaseWorld.Sound g tonumber rate w :=
    (LeaseWorld.Sound.initial hrate clock).run hrate hsteps hheeding
  calc (admissionsIn w.admitted t₁ t₂ : ℚ)
      ≤ g.capacity rate + rate / 1000 * ((t₂ - t₁ : ℤ) : ℚ) := h.metered.interval t₁ t₂ hle
    _ = max 1 (rate * g.burstSeconds) + rate * ((t₂ - t₁ : ℤ) : ℚ) / 1000 := by
        rw [LeasedRateGate.capacity, div_mul_eq_mul_div]

/-! ### Two runs -/

/-- The numbers of the two runs. -/
def sampleNumber : String → Option ℚ
  | "0.1" => some (1 / 10)
  | "1" => some 1
  | "30000" => some 30000
  | _ => none

/-- A command that leases a rate of one request in ten seconds until the given time. -/
def sampleCommand (validUntil : String) : Hash String String :=
  [("api_version", dispatchRateLimitAPIVersion), ("pool_id", "pool"), ("max_admission_rps", "0.1"),
    ("valid_until_unix_ms", validUntil), ("decision_id", "d1")].foldl
    (fun h f => Hash.hset h f.1 f.2) .empty

/-- The gate of the two runs, with the default burst of a second. -/
def sampleGate : LeasedRateGate := ⟨"pool", 1⟩

/-- Two replicas ask at once under a long lease, and again when the bucket has been refilled; in
between the clock steps back. -/
def steadyRun : List LeaseStep :=
  [.lease (sampleCommand "30000"), .apply, .apply, .clock 10000 true, .apply, .clock 9000 false,
    .apply]

lemma atRate_sampleCommand (validUntil : String) :
    (LeaseStep.lease (sampleCommand validUntil)).AtRate sampleNumber (1 / 10) := by
  intro v q hv hq
  have hrps : Hash.hget (sampleCommand validUntil) "max_admission_rps" = some "0.1" := by
    simp [sampleCommand, Hash.hget_hset]
  rw [hrps, Option.some.injEq] at hv
  subst hv
  exact (Option.some.inj hq).symm

/-- Two requests are admitted in ten seconds. -/
theorem steadyRun_bounded :
    let w := steadyRun.foldl (LeaseWorld.next sampleGate sampleNumber) (.initial 0)
    w.admitted = [0, 10000] ∧
      (admissionsIn w.admitted 0 10000 : ℚ) ≤
        max 1 (1 / 10 * sampleGate.burstSeconds) + 1 / 10 * ((10000 - 0 : ℤ) : ℚ) / 1000 := by
  intro w
  refine ⟨by decide +kernel, leased_rate_bound (by norm_num) ?_ (by decide +kernel) (by decide)⟩
  intro s hs
  simp only [steadyRun, List.mem_cons, List.not_mem_nil, or_false] at hs
  rcases hs with rfl | rfl | rfl | rfl | rfl | rfl | rfl
  · exact atRate_sampleCommand _
  all_goals trivial

/-- Under a lease that ends at once, a request is admitted; the state key expires a second later,
and under the next lease another request is admitted. -/
def lapsedRun : List LeaseStep :=
  [.lease (sampleCommand "1"), .apply, .clock 1002 true, .lease (sampleCommand "30000"), .apply]

/-- Two requests are admitted in about a second, more than one and a tenth. -/
theorem lapsedRun_exceeds :
    let w := lapsedRun.foldl (LeaseWorld.next sampleGate sampleNumber) (.initial 0)
    w.admitted = [0, 1002] ∧
      max 1 (1 / 10 * sampleGate.burstSeconds) + 1 / 10 * ((1002 - 0 : ℤ) : ℚ) / 1000 <
        (admissionsIn w.admitted 0 1002 : ℚ) := by
  have hadmitted : (lapsedRun.foldl (LeaseWorld.next sampleGate sampleNumber)
      (.initial 0)).admitted = [0, 1002] := by decide +kernel
  intro w
  refine ⟨hadmitted, ?_⟩
  rw [show w.admitted = [0, 1002] from hadmitted]
  have htwo : admissionsIn [0, 1002] 0 1002 = 2 := by decide
  rw [htwo, sampleGate]
  norm_num

/-! ### The two readers of a command -/

namespace LeasedRateGate

/-- `readLimit`; `parseFloat` and `parseInt` are those of `strconv`. -/
def readLimit (g : LeasedRateGate) (parseFloat : String → Option ℚ) (parseInt : String → Option ℤ)
    (command : Hash String String) (now : ℤ) : Option (ℚ × ℤ) := do
  let apiVersion ← Hash.hget command "api_version"
  let poolID ← Hash.hget command "pool_id"
  let rps ← Hash.hget command "max_admission_rps"
  let until_ ← Hash.hget command "valid_until_unix_ms"
  let decisionID ← Hash.hget command "decision_id"
  let rate ← parseFloat rps
  let validUntil ← parseInt until_
  -- `ValidateAt`
  guard (apiVersion = dispatchRateLimitAPIVersion ∧ poolID ≠ "" ∧ 0 ≤ rate ∧ now < validUntil ∧
    decisionID ≠ "")
  guard (poolID = g.poolID)
  return (rate, validUntil)

/-- `Budget`. -/
def budget (g : LeasedRateGate) (parseFloat : String → Option ℚ) (parseInt : String → Option ℤ)
    (command : Hash String String) (now : ℤ) : ℚ :=
  if (g.readLimit parseFloat parseInt command now).any (·.1 ≠ 0) then 1 else 0

section Readers

variable {g : LeasedRateGate} {tonumber parseFloat : String → Option ℚ}
  {parseInt : String → Option ℤ} {command : Hash String String} {rps until_ : String} {now : ℤ}

end Readers

end LeasedRateGate

end LlmdAsync.Redis
