import LlmdAsync.Redis.Commands

/-!
# Owner-fenced publication

Any number of dispatchers run the scripts of a queue in any order, with any arguments, and repeat
them after lost replies.  They only owe that a claim carries a token of its own: it has claimed
nothing but, when the claim is sent again, the same request (`World.Fresh`).

Then a token causes at most one result, at a moment when it owns the claim: the result takes the
token out of the owners hash, and nothing brings it back (`Fenced.spent`).
-/

namespace LlmdAsync.Redis

open List Hash Queue Keyspace Event

variable {M : Type} [DecidableEq M]

/-- A claim carries a fresh token, or is sent again before its token was used. -/
def World.Fresh (w : World M) : Command M → Prop
  | .claim queue key _ token _ => token ≠ "" ∧ .used token ∉ w.log ∧
      ∀ queue' key', .claimed queue' key' token ∈ w.log → queue' = queue ∧ key' = key
  | _ => True

def World.Step (w w' : World M) : Prop := ∃ ties c, w.Fresh c ∧ (w.exec ties c).2 = w'

/-- Some interleaving of commands leads to this world. -/
def World.Reachable (w : World M) : Prop := Relation.ReflTransGen World.Step .initial w

/-- The event is a result recorded with the token. -/
def Event.acks (token : String) : Event M → Bool
  | .acked _ _ token' => token' = token
  | _ => false

/-! ### The same keys -/

/-- Claimed requests, owners and leases have the same keys. -/
structure Queue.Aligned (q : Queue M) : Prop where
  owned : ∀ k, (Hash.hget q.claimed k).isSome = (Hash.hget q.owners k).isSome
  leased : ∀ k, (Hash.hget q.owners k).isSome = (Hash.hget q.idx k).isSome

namespace Queue.Aligned

variable {q q' : Queue M}

lemma enqueue (h : q.Aligned) (m : M) (s : ℚ) : (q.enqueue m s).Aligned := ⟨h.owned, h.leased⟩

omit [DecidableEq M] in
lemma drop (h : q.Aligned) (k : String) : (q.drop k).Aligned := by
  refine ⟨fun k' => ?_, fun k' => ?_⟩
  · simp only [Queue.drop, Hash.hget_hdel]
    split
    · rfl
    · exact h.owned k'
  · simp only [Queue.drop, Hash.hget_hdel]
    split
    · rfl
    · exact h.leased k'

lemma effect (h : q.Aligned) {name : String} {c : Command M} (heff : q.Effect name c q') :
    q'.Aligned := by
  cases heff with
  | same => exact h
  | submit | zadd => exact h.enqueue _ _
  | zrem => exact ⟨h.owned, h.leased⟩
  | claim hm =>
    refine ⟨fun k' => ?_, fun k' => ?_⟩
    · simp only [hget_hset]
      split
      · rfl
      · exact h.owned k'
    · simp only [hget_hset]
      split
      · rfl
      · exact h.leased k'
  | release howner | reclaim hidx hle hm => exact (h.enqueue _ _).drop _
  | ack howner hne | dropClaim howner => exact h.drop _
  | @ghost k s now hm =>
    have hidx : hget q.idx k = none := by
      rw [← Option.not_isSome_iff_eq_none, ← h.leased k, ← h.owned k, hm]
      exact Bool.false_ne_true
    refine ⟨h.owned, fun k' => ?_⟩
    rw [hget_hdel]
    split
    next hk =>
      rw [hk, h.leased k, hidx]
    · exact h.leased k'
  | @renew k token e howner =>
    refine ⟨h.owned, fun k' => ?_⟩
    rw [hget_hset]
    split
    next hk =>
      rw [hk, howner]
      rfl
    · exact h.leased k'

end Queue.Aligned

/-! ### Tokens -/

lemma Queue.Effect.owner {name : String} {q q' : Queue M} {c : Command M}
    (heff : q.Effect name c q') (k : String) :
    hget q'.owners k = hget q.owners k ∨
      (∃ m token e, c = .claim name k m token e ∧ (hget q.pending m).isSome ∧
        hget q'.owners k = some token) ∨ hget q'.owners k = none:= by
  have hdrop : ∀ (q₁ : Queue M) k', hget q₁.owners k = hget q.owners k →
      hget (q₁.drop k').owners k = hget q.owners k ∨
        hget (q₁.drop k').owners k = none := by
    intro q₁ k' h₁
    simp only [drop, hget_hdel]
    split
    · exact .inr rfl
    · exact .inl h₁
  cases heff with
  | same | submit | zadd | zrem | ghost | renew => exact .inl rfl
  | @claim k' m token e hm =>
    by_cases hk : k = k'
    · subst hk
      exact .inr (.inl ⟨m, token, e, rfl, hm, hget_hset_self ..⟩)
    · exact .inl (hget_hset_of_ne _ _ hk)
  | release | ack | dropClaim | reclaim =>
    rcases hdrop _ _ rfl with h | h
    · exact .inl h
    · exact .inr (.inr h)

section Events

variable {ks : Keyspace M} {c : Command M} {queue key token : String}

lemma claim_of_mem_events (h : .claimed queue key token ∈ ks.events c) :
    ∃ m e, c = .claim queue key m token e := by
  cases c with
  | claim queue' key' m token' e =>
    simp only [events] at h
    split at h
    · cases mem_singleton.mp h
      exact ⟨m, e, rfl⟩
    · cases h
  | ackResult =>
    simp only [events] at h
    split at h <;> simp at h
  | _ => simp [events] at h

lemma claimed_mem_events {m : M} {e : ℚ} (hm : (hget (ks.queues queue).pending m).isSome) :
    .claimed queue key token ∈ ks.events (.claim queue key m token e) := by
  rw [events, if_pos hm]
  exact mem_singleton_self _

omit [DecidableEq M] in
lemma Queue.ack_eq_true {q : Queue M} {key token : String} :
    (q.ack key token).1 = true ↔ Hash.hget q.owners key = some token ∧ token ≠ "" := by
  unfold ack
  split
  next h =>
    exact iff_of_true rfl h
  next h =>
    exact iff_of_false Bool.false_ne_true h

lemma acks_events (ks : Keyspace M) (c : Command M) (token : String) :
    (ks.events c).countP (·.acks token) = 0 ∨
      (ks.events c).countP (·.acks token) = 1 ∧ .used token ∈ ks.events c ∧
        ∃ queue key list record ttl payload,
          c = .ackResult queue key list record token ttl payload ∧
          Hash.hget (ks.queues queue).owners key = some token ∧ token ≠ "" := by
  cases c with
  | ackResult queue key list record token' ttl payload =>
    simp only [events]
    split
    next howner =>
      by_cases ht : token' = token
      · subst ht
        refine .inr ⟨?_, mem_cons_self, queue, key, list, record, ttl, payload, rfl,
          ack_eq_true.mp howner⟩
        simp [acks]
      · exact .inl (by simp [acks, ht])
    · exact .inl (by simp [acks])
  | claim =>
    refine .inl ?_
    simp only [events]
    split <;> simp [acks]
  | _ => exact .inl (by simp [events, acks])

end Events

/-- The fate of tokens. -/
structure Fenced (w : World M) : Prop where
  aligned : ∀ queue, (w.keys.queues queue).Aligned
  /-- Owners have claimed. -/
  owner : ∀ queue key token, Hash.hget (w.keys.queues queue).owners key = some token →
    .claimed queue key token ∈ w.log
  /-- A token claims one request. -/
  single : ∀ queue key queue' key' token, .claimed queue key token ∈ w.log →
    .claimed queue' key' token ∈ w.log → queue' = queue ∧ key' = key
  /-- A token with which a result was recorded has been used, and owns nothing any more. -/
  spent : ∀ token, w.log.any (·.acks token) = true → .used token ∈ w.log ∧
    ∀ queue key, Hash.hget (w.keys.queues queue).owners key ≠ some token
  /-- It has recorded one result. -/
  once : ∀ token, w.log.countP (·.acks token) ≤ 1

namespace Fenced

variable {w : World M}

omit [DecidableEq M] in
lemma initial : Fenced (.initial : World M) where
  aligned _ := ⟨fun _ => rfl, fun _ => rfl⟩
  owner _ _ _ h := by cases h
  single _ _ _ _ _ h := by cases h
  spent _ h := by cases h
  once _ := Nat.zero_le _

lemma owner_exec {ties : Ties M} {c : Command M} {queue key token : String}
    (h : hget ((w.exec ties c).2.keys.queues queue).owners key = some token) :
    hget (w.keys.queues queue).owners key = some token ∨
      ∃ m e, c = .claim queue key m token e ∧ .claimed queue key token ∈ w.keys.events c := by
  rcases (w.keys.exec_effect ties c queue).owner key with hkeep | ⟨m, token', e, hc, hm, ht⟩ | hnone
  · exact .inl (hkeep.symm.trans h)
  · cases ht.symm.trans h
    subst hc
    exact .inr ⟨m, e, rfl, claimed_mem_events hm⟩
  · cases hnone.symm.trans h

lemma owner_acked {ties : Ties M} {queue key list token : String} {record : ResultRecord} {ttl : ℤ}
    {payload : Option String} (howner : hget (w.keys.queues queue).owners key = some token)
    (hne : token ≠ "") :
    hget ((w.exec ties (.ackResult queue key list record token ttl payload)).2.keys.queues
      queue).owners key ≠ some token := by
  have hack : (w.keys.queues queue).ack key token = (true, (w.keys.queues queue).drop key) :=
    if_pos ⟨howner, hne⟩
  simp only [World.exec, Keyspace.exec, hack, Keyspace.onQueue, if_true,
    Keyspace.queues_recordResult, Keyspace.queues_setQueue_self, Queue.drop, Hash.hget_hdel_self]
  exact (Option.some_ne_none _).symm

lemma step (h : Fenced w) {ties : Ties M} {c : Command M} (hfresh : w.Fresh c) :
    Fenced (w.exec ties c).2 := by
  have hlog : (w.exec ties c).2.log = w.log ++ w.keys.events c := rfl
  refine ⟨?_, ?_, ?_, ?_, ?_⟩
  · intro queue
    exact (h.aligned queue).effect (w.keys.exec_effect ties c queue)
  · intro queue key token hown
    rw [hlog, mem_append]
    rcases owner_exec hown with hold | ⟨m, e, -, hmem⟩
    · exact .inl (h.owner queue key token hold)
    · exact .inr hmem
  · intro queue key queue' key' token h₁ h₂
    rw [hlog, mem_append] at h₁ h₂
    rcases h₁ with h₁ | h₁
    · rcases h₂ with h₂ | h₂
      · exact h.single queue key queue' key' token h₁ h₂
      · obtain ⟨m, e, rfl⟩ := claim_of_mem_events h₂
        obtain ⟨hq, hk⟩ := hfresh.2.2 queue key h₁
        exact ⟨hq.symm, hk.symm⟩
    · obtain ⟨m, e, rfl⟩ := claim_of_mem_events h₁
      rcases h₂ with h₂ | h₂
      · exact hfresh.2.2 queue' key' h₂
      · obtain ⟨m', e', heq⟩ := claim_of_mem_events h₂
        cases heq
        exact ⟨rfl, rfl⟩
  · intro token hack
    rw [hlog] at hack ⊢
    rw [any_append, Bool.or_eq_true] at hack
    rcases hack with hold | hnew
    · obtain ⟨hused, hgone⟩ := h.spent token hold
      refine ⟨mem_append_left _ hused, fun queue key hown => ?_⟩
      rcases owner_exec hown with hold | ⟨m, e, rfl, -⟩
      · exact hgone queue key hold
      · exact hfresh.2.1 hused
    · rcases acks_events w.keys c token with hzero | ⟨-, hused, q, k, _, _, _, _, rfl, howner, hne⟩
      · rw [countP_eq_zero] at hzero
        obtain ⟨e, he, hacks⟩ := any_eq_true.mp hnew
        exact absurd hacks (hzero e he)
      · refine ⟨mem_append_right _ hused, fun queue key hown => ?_⟩
        rcases owner_exec hown with hold | ⟨m, e, heq, -⟩
        · obtain ⟨rfl, rfl⟩ := h.single _ _ _ _ _ (h.owner _ _ _ howner) (h.owner _ _ _ hold)
          exact absurd hown (owner_acked howner hne)
        · cases heq
  · intro token
    rw [hlog, countP_append]
    rcases acks_events w.keys c token with hzero | ⟨hone, -, queue, key, _, _, _, _, rfl, howner, -⟩
    · rw [hzero]
      exact h.once token
    · have hnone : w.log.countP (·.acks token) = 0 := by
        rw [countP_eq_zero]
        intro e he hacks
        exact (h.spent token (any_eq_true.mpr ⟨e, he, hacks⟩)).2 queue key howner
      rw [hnone, hone]

end Fenced

lemma World.Reachable.fenced {w : World M} (h : w.Reachable) : Fenced w := by
  induction h with
  | refl => exact .initial
  | tail _ hstep ih =>
    obtain ⟨ties, c, hfresh, rfl⟩ := hstep
    exact ih.step hfresh

lemma Keyspace.results_ackResult (ks : Keyspace M) (ties : Ties M)
    (queue key list : String) (record : ResultRecord) (token : String) (ttl : ℤ)
    (payload : Option String) :
    (ks.exec ties (.ackResult queue key list record token ttl payload)).2.results =
      if ((ks.queues queue).ack key token).1 then
        Function.update ks.results list (record :: ks.results list)
      else ks.results := by
  rcases h : ((ks.queues queue).ack key token).1 with - | -
  · simp only [exec, onQueue, h]
    rfl
  · simp only [exec, onQueue, h, if_true, results_recordResult]
    rfl

/-- A token pushes at most one result, at a moment when it owns the claim, and the three keys of a
queue's claims have the same fields. -/
theorem owner_fenced_publication {w : World M} (h : w.Reachable) :
    (∀ token, w.log.countP (·.acks token) ≤ 1) ∧
      (∀ ties queue key list record token ttl payload w',
        w' = (w.exec ties (.ackResult queue key list record token ttl payload)).2 →
        (Hash.hget (w.keys.queues queue).owners key = some token ∧
            w'.keys.results =
              Function.update w.keys.results list (record :: w.keys.results list) ∧
            w'.log.countP (·.acks token) = w.log.countP (·.acks token) + 1) ∨
          (w'.keys.results = w.keys.results ∧
            w'.log.countP (·.acks token) = w.log.countP (·.acks token))) ∧
      ∀ queue key,
        (Hash.hget (w.keys.queues queue).claimed key).isSome =
            (Hash.hget (w.keys.queues queue).owners key).isSome ∧
          (Hash.hget (w.keys.queues queue).owners key).isSome =
            (Hash.hget (w.keys.queues queue).idx key).isSome := by
  refine ⟨h.fenced.once, ?_, ?_⟩
  · rintro ties queue key list record token ttl payload _ rfl
    simp only [World.exec, results_ackResult, events, countP_append, countP_cons]
    by_cases hack : ((w.keys.queues queue).ack key token).1 = true
    · rw [if_pos hack, if_pos hack]
      exact .inl ⟨(ack_eq_true.mp hack).1, rfl, by simp [acks]⟩
    · rw [if_neg hack, if_neg hack]
      exact .inr ⟨rfl, rfl⟩
  · intro queue key
    exact ⟨(h.fenced.aligned queue).owned key, (h.fenced.aligned queue).leased key⟩

/-! ### An acknowledgement whose reply is lost -/

lemma World.Reachable.refl : (World.initial : World M).Reachable := Relation.ReflTransGen.refl

lemma World.Reachable.exec {w : World M} (h : w.Reachable) {c : Command M} (hfresh : w.Fresh c) :
    (w.exec .plain c).2.Reachable :=
  h.tail ⟨.plain, c, hfresh, rfl⟩

def World.run (w : World M) : List (Command M) → World M
  | [] => w
  | c :: cs => ((w.exec .plain c).2).run cs

def sampleRequest : InternalRequest where
  id := "r"
  deadline := 100
  payload := some "p"
  routing := ⟨0, "", "g", "q", "", 0, false, 0, "", []⟩

def sampleRecord : ResultRecord := marshalResult (newHTTPResult sampleRequest 200 "ok")

/-- The request is claimed and its result acknowledged twice. -/
def ackRun : List (Command (Option InternalRequest)) :=
  [.submit "q" (some sampleRequest) 100 none,
    .claim "q" sampleRequest.claimKey (some sampleRequest) "t" 60,
    .ackResult "q" sampleRequest.claimKey "results" sampleRecord "t" 0 none,
    .ackResult "q" sampleRequest.claimKey "results" sampleRecord "t" 0 none]

lemma ackRun_reachable : (World.initial.run ackRun).Reachable := by
  have hsubmit := World.Reachable.refl.exec (c := ackRun[0]) trivial
  have hclaim := hsubmit.exec (c := ackRun[1]) ⟨by decide,
    fun h => (by cases mem_singleton.mp h), fun _ _ h => (by cases mem_singleton.mp h)⟩
  have hack := hclaim.exec (c := ackRun[2]) trivial
  exact hack.exec (c := ackRun[3]) trivial

/-- The second acknowledgement pushes nothing. -/
theorem ackRun_fenced :
    (World.initial.run ackRun).keys.results "results" = [sampleRecord] ∧
      (World.initial.run ackRun).log.countP (·.acks "t") ≤ 1 := by
  refine ⟨by decide +kernel, ?_⟩
  exact (owner_fenced_publication ackRun_reachable).1 "t"

end LlmdAsync.Redis
