import LlmdAsync.Foundation.Paths
import LlmdAsync.Redis.Flow

/-!
# Leases of fresh claims

`claimExpiry` caps a lease at the deadline of its request and five minutes of grace.  All code that
claims a request or renews a claim computes the expiry from a clock reading of its own
(`leased_claimRequest` and the lemmas after it).  Before the grace is over the lease lies in the
future of that reading, and a reclaim at the reading leaves the claim alone.  Afterwards the cap
lies in the past: `claim_after_grace_lapsed` is a claim that the reclaimer may undo at once.
-/

namespace LlmdAsync.Redis

open Queue Keyspace

variable {M : Type}

/-- The queue, the key and the expiry of the lease a command writes. -/
def Command.lease : Command M → Option (String × String × ℚ)
  | .claim queue key _ _ expiry => some (queue, key, expiry)
  | .renewClaim queue key expiry _ => some (queue, key, expiry)
  | _ => none

/-- By its reply, the command has written its lease. -/
def Command.Granted : (c : Command M) → c.Reply → Prop
  | .claim .., r => r = true
  | .renewClaim .., r => r = (1 : ℤ)
  | _, _ => False

/-- Remember what the clock showed last. -/
def noteClock : (i : Action M) → i.Reply → Option ℤ → Option ℤ
  | .ask .now, now, _ => some now
  | _, _, clock => clock

/-- The action writes no lease but one computed from the last clock reading. -/
def Action.Leased (cfg : FlowConfig) (deadline : ℤ) : Action M → Option ℤ → Prop
  | .redis c, clock => ∀ queue key expiry, c.lease = some (queue, key, expiry) →
    ∃ now, clock = some now ∧ expiry = claimExpiryAt cfg now deadline
  | _, _ => True

variable {cfg : FlowConfig} {deadline : ℤ} {clock : Option ℤ}

/-! ### What the code writes -/

lemma leased_claimExpiry : (claimExpiry cfg deadline : Code M ℚ).Follows
    (Action.Leased cfg deadline) noteClock
    (fun expiry clock => ∃ now, clock = some now ∧ expiry = claimExpiryAt cfg now deadline) clock:=
  .step trivial fun now => ⟨now, rfl, rfl⟩

lemma leased_redis {c : Command M} (h : Action.Leased cfg deadline (.redis c) clock) :
    (redis c).Follows (Action.Leased cfg deadline) noteClock (fun _ clock' => clock' = clock)
      clock := by
  refine .step trivial fun n => ?_
  change (resend c n).Follows _ _ _ clock
  induction n with
  | zero => exact ⟨h, fun _ => rfl⟩
  | succ n ih =>
    refine .step h fun r => ?_
    cases r with
    | none => exact ih
    | some r => exact rfl

lemma leased_plain {c : Command M} (hc : c.lease = none) :
    (redis c).Follows (Action.Leased cfg deadline) noteClock (fun _ clock' => clock' = clock)
      clock :=
  leased_redis fun _ _ _ h => absurd (hc.symm.trans h) nofun

variable (cfg deadline clock)

lemma leased_claimRequest (queue : String) (ir : InternalRequest) (member : M) :
    (claimRequest cfg queue ir member deadline).Follows (Action.Leased cfg deadline) noteClock
      (fun _ _ => True) clock := by
  refine .step trivial fun token => ?_
  cases token with
  | none => exact trivial
  | some token =>
    refine .bind (leased_claimExpiry.weaken fun expiry clock hexpiry => ?_)
    refine .bind ((leased_redis ?_).weaken fun claimed _ _ => ?_)
    · rintro _ _ _ ⟨⟩
      exact hexpiry
    · match claimed with
      | none | some false => exact trivial
      | some true => exact .step trivial fun _ => trivial

lemma leased_renewClaim (queue requestID requestToken token : String) :
    (renewClaim cfg queue requestID requestToken deadline token : Code M (Option ℤ)).Follows
      (Action.Leased cfg deadline) noteClock (fun _ _ => True) clock := by
  refine .bind (leased_claimExpiry.weaken fun expiry clock hexpiry => ?_)
  refine (leased_redis ?_).weaken fun _ _ _ => trivial
  rintro _ _ _ ⟨⟩
  exact hexpiry

lemma leased_ackResultCluster (queue list key token : String) (record : ResultRecord) (ttl : ℤ) :
    (ackResultCluster cfg queue list key deadline token record ttl : Code M (Option Bool)).Follows
      (Action.Leased cfg deadline) noteClock (fun _ _ => True) clock := by
  unfold ackResultCluster
  split
  · refine .bind ((leased_plain (by rfl)).weaken fun pushed _ _ => ?_)
    cases pushed with
    | none => exact trivial
    | some pushed => exact .step trivial fun _ => trivial
  · refine .bind (leased_claimExpiry.weaken fun expiry clock hexpiry => ?_)
    refine .bind ((leased_redis ?_).weaken fun renewed _ _ => ?_)
    · rintro _ _ _ ⟨⟩
      exact hexpiry
    cases renewed with
    | none => exact trivial
    | some res =>
      dsimp only
      split
      · exact .step trivial fun _ => trivial
      refine .bind ((leased_plain (by rfl)).weaken fun pushed _ _ => ?_)
      cases pushed with
      | none => exact trivial
      | some _ =>
        refine .step trivial fun _ => ?_
        exact .bind ((leased_plain (by rfl)).weaken fun _ _ _ => trivial)

/-! ### What a reclaim at the same time does -/

variable {cfg deadline}

/-- The lease lies in the future exactly as long as the grace is not over. -/
lemma lt_claimExpiryAt_iff {now : ℤ} (httl : 0 < cfg.claimLeaseTTL) :
    (now : ℚ) < claimExpiryAt cfg now deadline ↔
      deadline ≤ 0 ∨ (now : ℚ) < deadline + reclaimGraceAfterDeadline := by
  have hlease : (now : ℚ) < now + cfg.claimLeaseTTL := lt_add_of_pos_right _ httl
  unfold claimExpiryAt
  split
  next hcap => exact (or_iff_right (not_le.mpr hcap.1)).symm
  next hcap =>
    rw [not_and_or, not_lt, not_lt] at hcap
    exact iff_of_true hlease (hcap.imp_right hlease.trans_le)

variable [DecidableEq M]

lemma Queue.reclaimExpired_eq_iff {q : Queue M} {key : String} {expiry now : ℚ}
    (hidx : Hash.hget q.idx key = some expiry) (score : ℚ) :
    q.reclaimExpired key score now = (false, q) ↔ now < expiry := by
  simp only [reclaimExpired, hidx]
  split
  next hlt => exact iff_of_true rfl hlt
  next hlt =>
    -- Whether or not the member is there, the key leaves the index.
    refine iff_of_false (fun heq => ?_) hlt
    have hgone := congrArg (fun r => Hash.hget r.2.idx key) heq
    cases hclaimed : Hash.hget q.claimed key with
    | none => simp [hclaimed, hidx] at hgone
    | some payload => simp [hclaimed, drop, enqueue, hidx] at hgone

lemma idx_of_granted {c : Command M} {queue key : String} {expiry : ℚ}
    (hc : c.lease = some (queue, key, expiry)) {ks : Keyspace M} {ties : Ties M}
    (h : c.Granted (ks.exec ties c).1) :
    Hash.hget ((ks.exec ties c).2.queues queue).idx key = some expiry := by
  cases c with
  | claim queue key member token expiry =>
    cases hc
    simp only [exec, onQueue, queues_setQueue_self, Command.Granted, claim] at h ⊢
    split at h
    · rw [if_pos ‹_›]
      exact Hash.hget_hset_self ..
    · cases h
  | renewClaim queue key expiry token =>
    cases hc
    simp only [exec, onQueue, queues_setQueue_self, Command.Granted, Queue.renewClaim] at h ⊢
    split at h
    · rw [if_pos ‹_›]
      exact Hash.hget_hset_self ..
    · split at h <;> cases h
  | _ => cases hc

/-- Every lease the code writes comes from a clock reading.  The lease is later than the reading,
and a reclaim at the time of the reading leaves the claim alone, exactly if the reading is before
the end of the grace. -/
def FreshLeases {α : Type} (deadline : ℤ) (code : Code M α) : Prop :=
  ∀ tr a, code.Path tr a → ∀ tr₁ c r tr₂, tr = tr₁ ++ ⟨.redis c, r⟩ :: tr₂ →
    ∀ queue key expiry, c.lease = some (queue, key, expiry) →
    ∃ now : ℤ, Prog.after noteClock tr₁ none = some now ∧
      ((now : ℚ) < expiry ↔ deadline ≤ 0 ∨ (now : ℚ) < deadline + reclaimGraceAfterDeadline) ∧
      ∀ (ks : Keyspace M) (ties : Ties M) (score : ℚ), c.Granted (ks.exec ties c).1 →
        (((ks.exec ties c).2.queues queue).reclaimExpired key score now =
            (false, (ks.exec ties c).2.queues queue) ↔
          deadline ≤ 0 ∨ (now : ℚ) < deadline + reclaimGraceAfterDeadline)

lemma FreshLeases.of_follows {α : Type} {code : Code M α} (httl : 0 < cfg.claimLeaseTTL)
    (h : code.Follows (Action.Leased cfg deadline) noteClock (fun _ _ => True) none) :
    FreshLeases deadline code := by
  intro tr a hp tr₁ c r tr₂ heq queue key expiry hc
  obtain ⟨now, hclock, rfl⟩ := (h.along hp).2 tr₁ _ r tr₂ heq queue key expiry hc
  refine ⟨now, hclock, lt_claimExpiryAt_iff httl, fun ks ties score hgrant => ?_⟩
  exact (reclaimExpired_eq_iff (idx_of_granted hc hgrant) score).trans (lt_claimExpiryAt_iff httl)

/-- Claims, renewals and the fence of an acknowledgement across slots carry a live lease exactly if
they are made before the grace is over. -/
theorem leases_start_live (httl : 0 < cfg.claimLeaseTTL) (deadline : ℤ) (queue : String) :
    (∀ ir (member : M), FreshLeases deadline (claimRequest cfg queue ir member deadline)) ∧
    (∀ requestID requestToken token, FreshLeases deadline
      (renewClaim cfg queue requestID requestToken deadline token : Code M (Option ℤ))) ∧
    ∀ list key token record ttl, FreshLeases deadline
      (ackResultCluster cfg queue list key deadline token record ttl : Code M (Option Bool)) :=
  ⟨fun ir member => .of_follows httl (leased_claimRequest cfg deadline none queue ir member),
    fun requestID requestToken token =>
      .of_follows httl (leased_renewClaim cfg deadline none queue requestID requestToken token),
    fun list key token record ttl => .of_follows httl
      (leased_ackResultCluster cfg deadline none queue list key token record ttl)⟩

/-- A poll at 100 claims a request whose deadline is 100.  The lease runs until 400, and a reclaim
at 100 leaves the claim alone. -/
theorem lease_live_at_deadline :
    let cfg : FlowConfig := ⟨false, 300, 1, "", ""⟩
    let ir : InternalRequest := ⟨"r", 100, none, ⟨0, "", "t", "q", "", 0, false, 0, "", []⟩⟩
    let tr : List (Sigma Action.Reply) := [⟨.newClaimToken ir.claimKey, some "c"⟩,
      ⟨.ask .now, (100 : ℤ)⟩, ⟨.ask .resends, (0 : ℕ)⟩,
      ⟨.redis (.claim "q" ir.claimKey () "c" 400), some true⟩,
      ⟨.storeHandle ⟨"c", "q", 100, "r", "t"⟩, ()⟩]
    (claimRequest cfg "q" ir () 100).Path tr (some (some "c")) ∧ ((100 : ℤ) : ℚ) < 400 ∧
      ∀ (ks : Keyspace Unit) (ties : Ties Unit) (score : ℚ),
        (ks.exec ties (.claim "q" ir.claimKey () "c" 400)).1 = true →
        let q := (ks.exec ties (.claim "q" ir.claimKey () "c" 400)).2.queues "q"
        q.reclaimExpired ir.claimKey score (100 : ℤ) = (false, q) := by
  intro cfg ir tr
  have hexpiry : claimExpiryAt cfg 100 100 = 400 := by
    norm_num [claimExpiryAt, cfg, reclaimGraceAfterDeadline]
  have hpath : (claimRequest cfg "q" ir () 100).Path tr (some (some "c")) := by
    simp only [tr]
    rw [← hexpiry]
    exact .act _ (.act _ (.act _ (.act _ (.act _ (.done _)))))
  obtain ⟨now, hnow, hlease, hreclaim⟩ := (leases_start_live (by norm_num [cfg]) 100 "q").1 ir ()
    tr _ hpath (tr.take 3) (.claim "q" ir.claimKey () "c" 400) (some true) (tr.drop 4) rfl
    "q" ir.claimKey 400 rfl
  obtain rfl : 100 = now := Option.some.inj hnow
  have hgrace : (100 : ℤ) ≤ 0 ∨ ((100 : ℤ) : ℚ) < (100 : ℤ) + reclaimGraceAfterDeadline :=
    .inr (by norm_num [reclaimGraceAfterDeadline])
  exact ⟨hpath, hlease.mpr hgrace, fun ks ties score hgrant =>
    (hreclaim ks ties score hgrant).mpr hgrace⟩

/-- A poll at 1000 claims a request whose deadline was 100.  The lease runs until 400, so the claim
succeeds and a reclaim at 1000 makes the request pending again. -/
theorem claim_after_grace_lapsed :
    let cfg : FlowConfig := ⟨false, 300, 1, "", ""⟩
    let ir : InternalRequest := ⟨"r", 100, none, ⟨0, "", "t", "q", "", 0, false, 0, "", []⟩⟩
    let q : Queue Unit := { empty with pending := Hash.hset .empty () 100 }
    (∃ tr, (claimRequest cfg "q" ir () 100).Path (⟨.newClaimToken ir.claimKey, some "c"⟩ ::
        ⟨.ask .now, (1000 : ℤ)⟩ :: ⟨.ask .resends, (0 : ℕ)⟩ ::
        ⟨.redis (.claim "q" ir.claimKey () "c" 400), some true⟩ :: tr) (some (some "c"))) ∧
      (q.claim ir.claimKey () "c" 400).1 = true ∧
      ((q.claim ir.claimKey () "c" 400).2.reclaimExpired ir.claimKey 100 1000).1 = true := by
  intro cfg ir q
  have hexpiry : claimExpiryAt cfg 1000 100 = 400 := by norm_num [claimExpiryAt, cfg,
    reclaimGraceAfterDeadline]
  refine ⟨⟨[⟨.storeHandle ⟨"c", "q", 100, "r", "t"⟩, ()⟩], ?_⟩, by decide +kernel,
    by decide +kernel⟩
  rw [← hexpiry]
  exact .act _ (.act _ (.act _ (.act _ (.act _ (.done _)))))

end LlmdAsync.Redis
