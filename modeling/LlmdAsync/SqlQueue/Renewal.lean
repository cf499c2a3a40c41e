import LlmdAsync.Foundation.Timed
import LlmdAsync.SqlQueue.ClusterRules
import LlmdAsync.SqlQueue.Ownership

/-!
# A lease that is renewed in time

The dispatchers time their leases by readings of the database clock (`Store.Now`), which they take
before they issue the statements that use them.  A reading is never ahead of the clock, so a lease
whose expiry has not passed is not taken by anyone, its own holder included.  The partition keeps
its owner and its epoch for as long as the owner renews the lease in time and does not give the
partition up.
-/

namespace LlmdAsync.SqlQueue

open Option Cluster ThreadSystem

/-! ### Statements about one lease -/

/-- The statement uses no reading of the clock that is ahead of it.  Only the reading of
`AcquirePartitions` is ever compared with a lease. -/
def Stmt.readBy (clock : Time) : Stmt → Bool
  | .acquirePartitions _ _ now _ _ => now ≤ clock
  | _ => true

/-- The expiry to which the statement extends the lease of the partition, if it is the last
statement of a `Heartbeat` of `c` on its queue. -/
def Stmt.renewal? (c : Owner) (pk : PartitionKey) : Stmt → Option ℤ
  | .renewLeases queue owner expires => if queue = pk.queue ∧ owner = c then some expires else none
  | _ => none

/-- By this statement, `c` gives the partition up: it releases it, or it leaves. -/
def Stmt.givesUp (c : Owner) (pk : PartitionKey) : Stmt → Bool
  | .releasePartitions queue owner ps => queue = pk.queue ∧ owner = c ∧ pk.partition ∈ ps
  | .leave queue owner => queue = pk.queue ∧ owner = c
  | _ => false

namespace Database

/-- The partition is leased to `c` at epoch `e` until `expires`. -/
def Leased (db : Database) (c : Owner) (pk : PartitionKey) (e expires : ℤ) : Prop :=
  ∃ p, db.partitions.get? pk = some p ∧ p.owner = c.name ∧ p.epoch = e ∧
    p.leaseExpiresMs = expires

variable {db db' : Database} {c : Owner} {pk : PartitionKey} {e expires : ℤ}

lemma Leased.exec_other (h : db.Leased c pk e expires) {sched : Sched} {s : Stmt} {rep : Reply s}
    (hexec : db.exec sched s = some (rep, db')) {clock : Time} (hread : s.readBy clock = true)
    (htime : clock.unixMilli ≤ expires) (hother : s.renewal? c pk = none)
    (hkept : s.givesUp c pk = false) :
    db'.Leased c pk e expires ∧ aboutPartition pk (db.events sched s) = [] := by
  obtain ⟨p, hp, howner, he, hexp⟩ := h
  obtain ⟨evs, hevs, heff⟩ := db.exec_partitionEffect hexec pk
  -- the statement names the owner of the row, and the row is owned by `c`
  have hself : ∀ {o : Owner} {q : PartitionRow}, db.partitions.get? pk = some q →
      q.owner = o.name → o = c ∧ q = p := by
    intro o q hq ho
    have hqp : q = p := some.inj (hq.symm.trans hp)
    rw [hqp, howner] at ho
    exact ⟨Owner.eq_of_name_eq ho.symm, hqp⟩
  cases heff with
  | keep hkeep => exact ⟨⟨p, hkeep.trans hp, howner, he, hexp⟩, hevs⟩
  | create hq =>
    rw [hp] at hq
    cases hq
  | renew hq hq' hqueue ho =>
    obtain ⟨rfl, -⟩ := hself hq ho
    rw [Stmt.renewal?, if_pos ⟨hqueue.symm, rfl⟩] at hother
    cases hother
  | @acquire queue owner now ttl limit q hq hq' hqueue hfree =>
    have hqp : q = p := some.inj (hq.symm.trans hp)
    have hle : now ≤ clock := of_decide_eq_true hread
    have hms := Time.unixMilli_mono hle
    rcases hfree with hnone | hlapsed
    · rw [hqp, howner] at hnone
      exact absurd hnone c.name_ne
    · rw [hqp, hexp] at hlapsed
      omega
  | drain hq hq' hqueue ho =>
    obtain ⟨rfl, rfl⟩ := hself hq ho
    exact ⟨⟨_, hq', howner, he, hexp⟩, hevs⟩
  | release hq hq' hqueue ho hnamed =>
    obtain ⟨rfl, -⟩ := hself hq ho
    exact absurd ⟨hqueue.symm, rfl, hnamed⟩ (of_decide_eq_false hkept)
  | leave hq hq' hqueue ho =>
    obtain ⟨rfl, -⟩ := hself hq ho
    exact absurd ⟨hqueue.symm, rfl⟩ (of_decide_eq_false hkept)

lemma Leased.exec_renew (h : db.Leased c pk e expires) {sched : Sched} {s : Stmt} {rep : Reply s}
    (hexec : db.exec sched s = some (rep, db')) {expires' : ℤ}
    (hrenew : s.renewal? c pk = some expires') :
    db'.Leased c pk e expires' ∧ aboutPartition pk (db.events sched s) = [] := by
  obtain ⟨p, hp, howner, he, -⟩ := h
  cases s with
  | renewLeases queue owner expires₁ =>
    have hsel : (queue = pk.queue ∧ owner = c) ∧ expires₁ = expires' := by
      simpa [Stmt.renewal?] using hrenew
    obtain ⟨⟨rfl, rfl⟩, rfl⟩ := hsel
    cases hexec
    have hkey := Table.key_of_get? hp
    refine ⟨⟨{ p with leaseExpiresMs := expires₁ }, ?_, howner, he, rfl⟩, rfl⟩
    refine get?_renewLeases pk.queue owner.name expires₁ pk |>.trans ?_
    rw [hp, map_some, if_pos]
    rw [Bool.and_eq_true, decide_eq_true_eq, decide_eq_true_eq, hkey]
    exact ⟨rfl, howner⟩
  | _ => cases hrenew

end Database

/-! ### Consumers beside the database clock -/

/-- Consumers and the programs they run, beside the clock. -/
abbrev ClockedPool := Pool Action Action.Reply Thread (Timed Cluster)

/-- A step of consumers beside the clock. -/
abbrev ClockedLabel := Label Thread Choice Op (Passing EnvStep)

/-- The statement that takes effect in a step, if one does. -/
def effective (P : ClockedPool) : ClockedLabel → Option Stmt
  | .act t ch =>
    match P.prog t with
    | some (.act (.call s) _) => if ch.outcome = .failed then none else some s
    | _ => none
  | .env (.step (.client _ s)) => some s
  | _ => none

def worldOf (P : ClockedPool) : World := P.state.state.world

lemma next_effective {cfg : Owner → Config} {P P' : ClockedPool} {l : ClockedLabel}
    (h : (system cfg).timed.next P l = some P') :
    effective P l = none ∧ worldOf P' = worldOf P ∨ ∃ s sched rep, effective P l = some s ∧
        (worldOf P).exec sched s = some (rep, worldOf P') := by
  cases l with
  | start t o =>
    obtain ⟨-, -, rfl⟩ := next_start h
    exact .inl ⟨rfl, rfl⟩
  | finish t =>
    obtain ⟨a, -, rfl⟩ := next_finish h
    exact .inl ⟨rfl, rfl⟩
  | act t ch =>
    obtain ⟨i, k, r, s, hprog, hexec, rfl⟩ := next_act h
    have hx : exec t i ch P.state.state = some (r, s.state) :=
      (timed_exec hexec).1
    have hworld : ∀ {w : World}, s.state.world = w →
        worldOf ⟨s, Function.update P.prog t (some (k r))⟩ = w := fun hw => hw
    cases i with
    | lock op =>
      obtain ⟨-, hs⟩ := exec_lock hx
      exact .inl ⟨by simp only [effective, hprog], hworld (by rw [hs]; rfl)⟩
    | unlock =>
      have hs := exec_unlock hx
      exact .inl ⟨by simp only [effective, hprog], hworld (by rw [hs]; rfl)⟩
    | critical c =>
      obtain ⟨-, hs⟩ := exec_critical hx
      exact .inl ⟨by simp only [effective, hprog], hworld (by rw [hs]; rfl)⟩
    | call stmt =>
      rcases exec_call hx with ⟨-, hs, hout⟩ | ⟨rep, w, hw, hs, hout⟩
      · have hnone : effective P (.act t ch) = none := by
          simp only [effective, hprog, if_pos hout]
        exact .inl ⟨hnone, hworld (congrArg world hs)⟩
      · have hne : ch.outcome ≠ .failed := by
          rcases hout with ⟨-, hout⟩ | ⟨-, hout⟩ <;> rw [hout] <;> decide
        refine .inr ⟨stmt, ch.sched, rep, by simp only [effective, hprog, if_neg hne], ?_⟩
        rw [hworld (congrArg world hs)]
        exact hw
  | env e =>
    obtain ⟨s, henv, rfl⟩ := map_eq_some_iff.mp h
    cases e with
    | tick now => exact .inl ⟨rfl, congrArg world (timed_tick henv).1⟩
    | step e =>
      have hx := (timed_step henv).1
      cases e with
      | crash c => exact .inl ⟨rfl, (congrArg world (some.inj hx)).symm⟩
      | client sched stmt =>
        simp only [system, envStep] at hx
        split at hx
        · obtain ⟨⟨rep, w⟩, hw, heq⟩ := map_eq_some_iff.mp hx
          refine .inr ⟨stmt, sched, rep, rfl, ?_⟩
          rw [show worldOf ⟨s, _⟩ = w from (congrArg world heq).symm]
          exact hw
        · cases hx

/-- A run from `P₀`, where the lease of `c` on the partition expires at `E₀`, to `P`, where it
expires at `E`.  Every reading of the clock is taken before the statement that uses it runs, every
renewal by `c` takes effect before the expiry set by the previous one has passed, and `c` does not
give the partition up.  Nothing else is asked of anybody's steps. -/
inductive Renewing (cfg : Owner → Config) (c : Owner) (pk : PartitionKey) (P₀ : ClockedPool)
    (E₀ : ℤ) : ClockedPool → ℤ → Prop
  /-- The run begins. -/
  | start : Renewing cfg c pk P₀ E₀ P₀ E₀
  /-- A step that does not renew the lease. -/
  | step {P P' : ClockedPool} {E : ℤ} {l : ClockedLabel} (hrun : Renewing cfg c pk P₀ E₀ P E)
      (hnext : (system cfg).timed.next P l = some P')
      (hread : ∀ s ∈ effective P l, s.readBy P.state.clock = true)
      (hother : ∀ s ∈ effective P l, s.renewal? c pk = none)
      (hkept : ∀ s ∈ effective P l, s.givesUp c pk = false) : Renewing cfg c pk P₀ E₀ P' E
  /-- The owner renews the lease, in time. -/
  | renew {P P' : ClockedPool} {E E' : ℤ} {l : ClockedLabel} {s : Stmt}
      (hrun : Renewing cfg c pk P₀ E₀ P E) (hnext : (system cfg).timed.next P l = some P')
      (heff : effective P l = some s) (hrenew : s.renewal? c pk = some E')
      (htime : Time.unixMilli P.state.clock ≤ E) : Renewing cfg c pk P₀ E₀ P' E'

/-- A partition whose owner renews its lease in time is not acquired by anybody, and keeps its
owner and its epoch. -/
theorem renewed_partition_kept {cfg : Owner → Config} {c : Owner} {pk : PartitionKey}
    {P₀ P : ClockedPool} {e E₀ E : ℤ} (hlease : (worldOf P₀).db.Leased c pk e E₀)
    (hrun : Renewing cfg c pk P₀ E₀ P E) (htime : Time.unixMilli P.state.clock ≤ E) :
    (worldOf P).db.Leased c pk e E ∧
      aboutPartition pk (worldOf P).log = aboutPartition pk (worldOf P₀).log := by
  -- time never goes back, so the expiry of the last renewal had not passed earlier either
  induction hrun with
  | start => exact ⟨hlease, rfl⟩
  | @step P P' E l _ hnext hread hother hkept ih =>
    have hclock := Time.unixMilli_mono (timed_clock_le hnext)
    have hearlier : Time.unixMilli P.state.clock ≤ E := hclock.trans htime
    obtain ⟨hl, hlog⟩ := ih hearlier
    rcases next_effective hnext with ⟨-, hworld⟩ | ⟨s, sched, rep, heff, hexec⟩
    · rw [hworld]
      exact ⟨hl, hlog⟩
    · obtain ⟨hdb, hlog'⟩ := World.exec_eq_some.mp hexec
      obtain ⟨hl', hevs⟩ :=
        hl.exec_other hdb (hread s heff) hearlier (hother s heff) (hkept s heff)
      refine ⟨hl', ?_⟩
      rw [hlog', aboutPartition_append, hevs, List.append_nil, hlog]
  | @renew P P' E E' l s _ hnext heff hrenew htime' ih =>
    obtain ⟨hl, hlog⟩ := ih htime'
    rcases next_effective hnext with ⟨hnone, -⟩ | ⟨s', sched, rep, heff', hexec⟩
    · rw [heff] at hnone
      cases hnone
    · rw [heff, some.injEq] at heff'
      subst heff'
      obtain ⟨hdb, hlog'⟩ := World.exec_eq_some.mp hexec
      obtain ⟨hl', hevs⟩ := hl.exec_renew hdb hrenew
      refine ⟨hl', ?_⟩
      rw [hlog', aboutPartition_append, hevs, List.append_nil, hlog]

/-- Take the steps of a list, as far as they are possible and meet the conditions of `Renewing`. -/
def renewingRun (cfg : Owner → Config) (c : Owner) (pk : PartitionKey) :
    ClockedPool × ℤ → List ClockedLabel → ClockedPool × ℤ
  | PE, [] => PE
  | (P, E), l :: ls =>
    match (system cfg).timed.next P l with
    | none => renewingRun cfg c pk (P, E) ls
    | some P' =>
      match effective P l with
      | none => renewingRun cfg c pk (P', E) ls
      | some s =>
        match s.renewal? c pk with
        | some E' =>
          if Time.unixMilli P.state.clock ≤ E then renewingRun cfg c pk (P', E') ls else (P, E)
        | none =>
          if s.readBy P.state.clock && !s.givesUp c pk then renewingRun cfg c pk (P', E) ls
          else (P, E)

lemma renewing_run {cfg : Owner → Config} {c : Owner} {pk : PartitionKey} {P₀ : ClockedPool}
    {E₀ : ℤ} (ls : List ClockedLabel) {PE : ClockedPool × ℤ}
    (h : Renewing cfg c pk P₀ E₀ PE.1 PE.2) :
    Renewing cfg c pk P₀ E₀ (renewingRun cfg c pk PE ls).1 (renewingRun cfg c pk PE ls).2 := by
  induction ls generalizing PE with
  | nil => exact h
  | cons l ls ih =>
    obtain ⟨P, E⟩ := PE
    rw [renewingRun]
    split
    · exact ih h
    next P' hnext =>
      split
      next hnone =>
        exact ih (.step h hnext (by simp [hnone]) (by simp [hnone]) (by simp [hnone]))
      next s heff =>
        split
        next E' hrenew =>
          split
          next htime =>
            exact ih (.renew h hnext heff hrenew htime)
          · exact h
        next hother =>
          split
          next hs =>
            rw [Bool.and_eq_true, Bool.not_eq_true'] at hs
            exact ih (.step h hnext (by simp [heff, hs.1]) (by simp [heff, hother])
              (by simp [heff, hs.2]))
          · exact h

lemma renewing_run_to {cfg : Owner → Config} {c : Owner} {pk : PartitionKey} {P₀ : ClockedPool}
    {E₀ E : ℤ} {ls : List ClockedLabel} (h : (renewingRun cfg c pk (P₀, E₀) ls).2 = E) :
    Renewing cfg c pk P₀ E₀ (renewingRun cfg c pk (P₀, E₀) ls).1 E := by
  subst h
  exact renewing_run ls .start

/-- A dispatcher acquires all partitions for thirty seconds. -/
def acquireRun : List ClockedLabel :=
  (alone ⟨⟨"dispatcher-0", first_ne⟩, 0⟩ (.rebalance 0)).map Label.timed

/-- It renews its leases after twenty seconds; twenty seconds later another dispatcher looks for
partitions. -/
def renewRun : List ClockedLabel :=
  let t₀ : Thread := ⟨⟨"dispatcher-0", first_ne⟩, 0⟩
  let t₁ : Thread := ⟨⟨"dispatcher-1", second_ne⟩, 0⟩
  .env (.tick 20000000000) :: (alone t₀ (.rebalance 20000000000)).map Label.timed ++
    .env (.tick 40000000000) :: (alone t₁ (.rebalance 40000000000)).map Label.timed

/-- In this run, the first dispatcher keeps the first partition. -/
theorem renewRun_kept :
    let c : Owner := ⟨"dispatcher-0", by decide⟩
    let cfg : Owner → Config := fun _ => ⟨"q", 30000000000, 60000000000⟩
    let P₀ := (system cfg).timed.run (idle ⟨initial, 0⟩) acquireRun
    let P := (renewingRun cfg c ⟨"q", 0⟩ (P₀, 30000) renewRun).1
    P.state.clock = 40000000000 ∧ (worldOf P₀).db.Leased c ⟨"q", 0⟩ 1 30000 ∧
      (worldOf P).db.Leased c ⟨"q", 0⟩ 1 50000 := by
  intro c cfg P₀ P
  obtain ⟨hclock, hE, hrow⟩ : P.state.clock = 40000000000 ∧
      (renewingRun cfg c ⟨"q", 0⟩ (P₀, 30000) renewRun).2 = 50000 ∧
      (worldOf P₀).db.partitions.get? ⟨"q", 0⟩ =
        some ⟨⟨"q", 0⟩, "dispatcher-0", 1, false, 30000⟩ := by
    decide +kernel
  have hlease : (worldOf P₀).db.Leased c ⟨"q", 0⟩ 1 30000 := ⟨_, hrow, rfl, rfl, rfl⟩
  have hrun : Renewing cfg c ⟨"q", 0⟩ P₀ 30000 P 50000 := renewing_run_to hE
  have htime : Time.unixMilli P.state.clock ≤ 50000 :=
    (congrArg Time.unixMilli hclock).trans_le (by decide)
  exact ⟨hclock, hlease, (renewed_partition_kept hlease hrun htime).1⟩

end LlmdAsync.SqlQueue
