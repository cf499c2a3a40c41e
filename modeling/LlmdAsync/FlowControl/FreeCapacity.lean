import LlmdAsync.Redis.Flow
import LlmdAsync.SqlFlow.PollWait

/-!
# Free capacity and the size of a poll

The local gate publishes its free capacity as a fraction, and a poll asks for the batch size times
this fraction, rounded down.  With `free` of `limit` slots free, a poll in batches of `n` asks for
a message if and only if `limit ≤ n * free`; otherwise the free slots stay unused.
-/

namespace LlmdAsync.FlowControl

open List Prog

open SqlFlow (budget)

/-- The size of a poll is positive exactly if the batch is large enough. -/
lemma one_le_mul_budget_iff {limit f n : ℕ} (hf : f < limit) :
    1 ≤ ⌊(n : ℚ) * budget limit f⌋ ↔ limit ≤ n * (limit - f) := by
  have hpos : (0 : ℚ) < limit := by exact_mod_cast Nat.zero_lt_of_lt hf
  have hfree : ((limit - f : ℕ) : ℚ) = limit - f := Nat.cast_sub hf.le
  have hbudget : budget limit f = (limit - f : ℚ) / limit := by
    rw [budget, if_neg (by omega)]
    rfl
  rw [Int.le_floor, hbudget, mul_div_assoc', Int.cast_one, one_le_div hpos, ← hfree]
  exact_mod_cast Iff.rfl

lemma sends_redis {M : Type} {c : Redis.Command M} {tr} {r : Option c.Reply}
    (h : (Redis.redis c).Path tr r) : ∃ r', ⟨.redis c, r'⟩ ∈ tr := by
  obtain ⟨n, tr, rfl, hsend⟩ := path_step h
  cases n with
  | zero => exact ⟨r, mem_cons_of_mem _ (path_perform hsend ▸ mem_cons_self)⟩
  | succ n =>
    obtain ⟨r', tr, rfl, -⟩ := path_step hsend
    exact ⟨r', mem_cons_of_mem _ mem_cons_self⟩

lemma always_redis {M : Type} (c : Redis.Command M) :
    (Redis.redis c).Always fun i => i = .ask .resends ∨ i = .redis c := by
  refine ⟨.inl rfl, fun n => ?_⟩
  change (Redis.resend c n).Always _
  induction n with
  | zero => exact ⟨.inr rfl, fun _ => trivial⟩
  | succ n ih =>
    refine ⟨.inr rfl, fun r => ?_⟩
    cases r with
    | none => exact ih
    | some r => exact trivial

/-- Some slots are free.  A poll of the SQL flow asks the store for messages, and one of the
sorted-set flow asks Redis, if and only if the batch is large enough for them. -/
theorem free_capacity_polled {M : Type} {limit f : ℕ} (hf : f < limit) (n : ℕ) :
    (∀ (flow : SqlFlow.Flow) (cfg : SqlFlow.QueueConfig) (tr) (u : Unit), flow.batchSize = n →
      (SqlFlow.processQueue flow cfg).Path tr u →
      (∀ b : ℚ, ⟨.budget, b⟩ ∈ tr → b = budget limit f) →
      ((∃ now k rows, 1 ≤ k ∧ ⟨.poll now k, rows⟩ ∈ tr) ↔ limit ≤ n * (limit - f))) ∧
    ∀ (codec : Redis.Codec M) (cfg : Redis.FlowConfig) (queue id : String)
      (qc : Redis.QueueConfig) (tr) (u : Unit), cfg.batchSize = n →
      (Redis.processMessagesWithConfig codec cfg queue id qc).Path tr u →
      (∀ b : ℚ, ⟨.ask .budget, b⟩ ∈ tr → b = budget limit f) →
      ((∃ k zs, 1 ≤ k ∧ ⟨.redis (.peek queue k), zs⟩ ∈ tr) ↔ limit ≤ n * (limit - f)) := by
  have hfloor := one_le_mul_budget_iff (n := n) hf
  constructor
  · intro flow cfg tr u hsize hpath hb
    obtain ⟨b, tr, rfl, hafter⟩ := path_step hpath
    obtain rfl := hb b mem_cons_self
    rw [hsize] at hafter
    dsimp only at hafter
    split at hafter
    next hnone =>
      obtain ⟨answer, tr, rfl, hdone⟩ := path_step hafter
      obtain ⟨rfl, -⟩ := path_pure hdone
      exact iff_of_false (by simp) (by omega)
    next hsome =>
      obtain ⟨now, tr, rfl, hpoll⟩ := path_step hafter
      obtain ⟨rows, tr, rfl, -⟩ := path_step hpoll
      exact iff_of_true ⟨now, _, rows, by omega, by simp⟩ (by omega)
  · intro codec cfg queue id qc tr u hsize hpath hb
    obtain ⟨now, tr, rfl, hnow⟩ := path_step hpath
    obtain ⟨b, tr, rfl, hafter⟩ := path_step hnow
    obtain rfl := hb b (mem_cons_of_mem _ mem_cons_self)
    rw [hsize] at hafter
    dsimp only at hafter
    split at hafter
    next hnone =>
      obtain ⟨tr₁, tr₂, card, rfl, hcard, hdone⟩ := path_bind hafter
      obtain ⟨rfl, -⟩ := path_pure hdone
      refine iff_of_false ?_ (by omega)
      rintro ⟨k, zs, -, hmem⟩
      have hmem' : ⟨.redis (.peek queue k), zs⟩ ∈ tr₁ := by simpa using hmem
      simpa using (always_redis (.zcard queue)).path hcard _ hmem'
    next hsome =>
      obtain ⟨tr₁, tr₂, zs, rfl, hpeek, -⟩ := path_bind hafter
      obtain ⟨zs', hmem⟩ := sends_redis hpeek
      exact iff_of_true ⟨_, zs', by omega, by simp [hmem]⟩ (by omega)

/-- A queue of the SQL flow that is polled in batches of `n`. -/
def pollInBatches (n : ℕ) : SqlFlow.Code Unit :=
  SqlFlow.processQueue ⟨n, 0, fun _ _ => none⟩ ⟨"q", "q", "", 0, []⟩

/-- The same in the sorted-set flow. -/
def peekInBatches (n : ℕ) : Redis.Code (Option Redis.InternalRequest) Unit :=
  Redis.processMessagesWithConfig Redis.plainCodec ⟨false, 300, n, "", ""⟩ "q" "q" ⟨"q", "", 0, []⟩

lemma floor_half {n : ℕ} : ⌊(n : ℚ) * budget 2 1⌋ = n / 2 := by
  have hbudget : budget 2 1 = 1 / 2 := by norm_num [budget]
  rw [hbudget, mul_one_div]
  simpa using Rat.floor_intCast_div_natCast n 2

theorem half_free_polled : ∃ tr, (pollInBatches 2).Path tr () ∧
    ∃ now k rows, 1 ≤ k ∧ ⟨.poll now k, rows⟩ ∈ tr := by
  have hpath : (pollInBatches 2).Path [⟨.budget, budget 2 1⟩, ⟨.now, 0⟩,
      ⟨.poll 0 ⌊((2 : ℕ) : ℚ) * budget 2 1⌋.toNat, none⟩] () := by
    refine .act _ ?_
    simp only [Prog.bind, floor_half]
    refine .act _ ?_
    refine .act _ ?_
    exact .done ()
  refine ⟨_, hpath, ?_⟩
  refine ((@free_capacity_polled String 2 1 (by decide) 2).1 _ _ _ _ rfl hpath ?_).mpr (by decide)
  simp

/-- One of two slots is free, and polls in batches of one ask for nothing. -/
theorem half_free_stranded :
    (pollInBatches 1).Path [⟨.budget, budget 2 1⟩, ⟨.hasRequests, some true⟩] () ∧
    (peekInBatches 1).Path [⟨.ask .now, (0 : ℤ)⟩, ⟨.ask .budget, budget 2 1⟩, ⟨.ask .resends, 0⟩,
      ⟨.redis (.zcard "q"), some 1⟩] () := by
  constructor
  · refine .act _ ?_
    simp only [Prog.bind, floor_half]
    exact .act _ (.done _)
  · refine .act _ (.act _ ?_)
    simp only [Prog.bind, floor_half]
    exact .act _ (.act _ (.done _))

end LlmdAsync.FlowControl
