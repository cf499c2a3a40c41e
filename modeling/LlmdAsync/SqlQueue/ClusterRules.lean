import LlmdAsync.SqlQueue.Cluster
import LlmdAsync.SqlQueue.Live

/-!
# Rules for consumers on one database

What one action of a thread can do, and what holds of every run whatever the consumers do: their
statements carry their own queue and name, the history of the database is one of interleaved
statements, and a consumer only owns partitions of its own queue.
-/

namespace LlmdAsync.SqlQueue

open Option Function Cluster

/-! ### Actions -/

namespace Cluster

variable {t : Thread} {ch : Choice} {σ σ' : Cluster}

variable {c c' : Owner}

lemma exec_lock {op : CycleOp} {r : (Action.lock op).Reply}
    (h : exec t (.lock op) ch σ = some (r, σ')) :
    σ.cycle t.consumer = none ∧ σ' = σ.setCycle t.consumer (some (t.num, op)) := by
  simp only [exec] at h
  split at h
  next hfree =>
    cases h
    exact ⟨hfree, rfl⟩
  · cases h

lemma exec_unlock {r : Action.unlock.Reply} (h : exec t .unlock ch σ = some (r, σ')) :
    σ' = σ.setCycle t.consumer none := by
  cases h
  rfl

lemma exec_critical {s : Critical} {r : (Action.critical s).Reply}
    (h : exec t (.critical s) ch σ = some (r, σ')) :
    r = (s.run (σ.memory t.consumer)).1 ∧ σ' = σ.afterCritical t.consumer s := by
  cases h
  exact ⟨rfl, rfl⟩

variable {s : Stmt}

lemma exec_call {r : (Action.call s).Reply} (h : exec t (.call s) ch σ = some (r, σ')) :
    r = none ∧ σ' = σ ∧ ch.outcome = .failed ∨ ∃ rep w, σ.world.exec ch.sched s = some (rep, w) ∧
        σ' = σ.afterCall t.consumer s rep w ∧
        (r = some rep ∧ ch.outcome = .ok ∨ r = none ∧ ch.outcome = .lost) := by
  simp only [exec] at h
  split at h
  next hok =>
    obtain ⟨⟨rep, w⟩, hw, heq⟩ := map_eq_some_iff.mp h
    cases heq
    exact .inr ⟨rep, w, hw, rfl, .inl ⟨rfl, hok⟩⟩
  next hlost =>
    obtain ⟨⟨rep, w⟩, hw, heq⟩ := map_eq_some_iff.mp h
    cases heq
    exact .inr ⟨rep, w, hw, rfl, .inr ⟨rfl, hlost⟩⟩
  next hfailed =>
    cases h
    exact .inl ⟨rfl, rfl, hfailed⟩

lemma outcome_of_none (h : exec t (.call s) ch σ = some (none, σ')) :
    ch.outcome ≠ .ok := by
  rcases exec_call h with ⟨-, -, hout⟩ | ⟨rep, w, -, -, ⟨hr, -⟩ | ⟨-, hout⟩⟩
  · rw [hout]
    decide
  · cases hr
  · rw [hout]
    decide

@[simp] lemma cycle_setCycle_self (holder : Option (ℕ × CycleOp)) :
    (σ.setCycle c holder).cycle c = holder := update_self ..

lemma cycle_setCycle_of_ne (holder : Option (ℕ × CycleOp)) (h : c' ≠ c) :
    (σ.setCycle c holder).cycle c' = σ.cycle c' := update_of_ne h ..

@[simp] lemma memory_afterCritical_self (s : Critical) :
    (σ.afterCritical c s).memory c = (s.run (σ.memory c)).2 := update_self ..

lemma memory_afterCritical_of_ne (s : Critical) (h : c' ≠ c) :
    (σ.afterCritical c s).memory c' = σ.memory c' := update_of_ne h ..

lemma polling_afterCritical_of_ne (s : Critical) (h : c' ≠ c) :
    (σ.afterCritical c s).polling c' = σ.polling c' := by
  cases s with
  | track | markReconcile => exact update_of_ne h ..
  | _ => rfl

/-- The cluster after a `Dispatch`. -/
def afterDispatch (σ : Cluster) (c : Owner) (rows : List Request) (w : World) : Cluster :=
  { σ with world := w, polling := Function.update σ.polling c rows }

@[simp] lemma polling_afterDispatch_self (rows : List Request) (w : World) :
    (σ.afterDispatch c rows w).polling c = rows := update_self ..

lemma polling_afterDispatch_of_ne (rows : List Request) (w : World) (h : c' ≠ c) :
    (σ.afterDispatch c rows w).polling c' = σ.polling c' := update_of_ne h ..

@[simp] lemma cycle_crash_self (c : Owner) : (σ.crash c).cycle c = none :=
  update_self ..

lemma cycle_crash_of_ne (h : c' ≠ c) : (σ.crash c).cycle c' = σ.cycle c' :=
  update_of_ne h ..

@[simp] lemma polling_crash_self (c : Owner) : (σ.crash c).polling c = [] :=
  update_self ..

lemma polling_crash_of_ne (h : c' ≠ c) :
    (σ.crash c).polling c' = σ.polling c' := update_of_ne h ..

@[simp] lemma dead_crash_self (c : Owner) : (σ.crash c).dead c = true :=
  update_self ..

lemma dead_crash_of_ne (h : c' ≠ c) : (σ.crash c).dead c' = σ.dead c' :=
  update_of_ne h ..

lemma exec_dispatch {queue : String} {owner : Owner} {now : Time} {limit : ℕ} {rows : List Request}
    (h : exec t (.call (.dispatch queue owner now limit)) ch σ = some (some rows, σ')) :
    ∃ w, σ.world.exec ch.sched (.dispatch queue owner now limit) = some (rows, w) ∧
      σ' = σ.afterDispatch t.consumer rows w := by
  rcases exec_call h with ⟨h, -, -⟩ | ⟨rep, w, hw, rfl, ⟨h, -⟩ | ⟨h, -⟩⟩
  · cases h
  · have hrep : rows = rep := some.inj h
    subst hrep
    exact ⟨w, hw, rfl⟩
  · cases h

lemma afterCall_of_not_dispatch {rep : Reply s} {w : World}
    (h : s.dispatcher? = none) : σ.afterCall c s rep w = { σ with world := w } := by
  cases s with
  | dispatch => cases h
  | _ => rfl

end Cluster

/-! ### Consumers speak for themselves -/

/-- The statement is one a consumer with this queue and name issues. -/
def Stmt.IssuedBy (queue : String) (owner : Owner) : Stmt → Prop
  | .dispatch q o _ _ => q = queue ∧ o = owner
  | .inFlight q o => q = queue ∧ o = owner
  | .resetStale q o _ => q = queue ∧ o = owner
  | .undispatch o _ _ => o = owner
  | .retry o _ _ _ => o = owner
  | .ack o _ _ => o = owner
  | .ensurePartitions q => q = queue
  | .joinMembers q o _ => q = queue ∧ o = owner
  | .leaveMembers q o => q = queue ∧ o = owner
  | .expireMembers q _ => q = queue
  | .countMembers q => q = queue
  | .renewLeases q o _ => q = queue ∧ o = owner
  | .acquirePartitions q o _ _ _ => q = queue ∧ o = owner
  | .setDraining q o _ _ => q = queue ∧ o = owner
  | .releasePartitions q o _ => q = queue ∧ o = owner
  | .leave q o => q = queue ∧ o = owner
  | _ => False

/-- The statement only concerns leases and membership, or looks for stale rows. -/
def Stmt.isLease : Stmt → Bool
  | .dispatch .. | .undispatch .. | .retry .. | .ack .. | .leave .. => false
  | _ => true

/-- The critical section leaves the books alone: what is in flight, the orphans and the
reconcile flag. -/
def Critical.isLease : Critical → Bool
  | .track _ | .markReconcile | .done _ | .abandon _ | .forgetOrphans _ | .clearReconcile => false
  | _ => true

/-- An action of a consumer that only concerns its leases. -/
def Action.LeaseOnly (queue : String) (owner : Owner) : Action → Prop
  | .call s => s.IssuedBy queue owner ∧ s.isLease = true
  | .critical s => s.isLease = true
  | _ => False

/-- An action of a consumer: its statements carry its queue and name. -/
def Action.Own (queue : String) (owner : Owner) : Action → Prop
  | .call s => s.IssuedBy queue owner
  | _ => True

/-- The action does not set the flag `seeded`. -/
def Action.Unseeding (i : Action) : Prop := i ≠ .critical .setSeeded

/-- The statement only works on requests. -/
def Stmt.aside : Stmt → Bool
  | .undispatch .. | .inFlight .. | .resetStale .. => true
  | _ => false

/-- The critical section leaves the leases and the flags of the consumer alone. -/
def Critical.aside : Critical → Bool
  | .readOrphans | .forgetOrphans _ | .readReconcile | .untracked _ | .clearReconcile | .beat .. =>
    true
  | _ => false

/-- An action that has nothing to do with leases. -/
def Action.Aside : Action → Prop
  | .call s => s.aside = true
  | .critical s => s.aside = true
  | _ => False

variable {sched : Sched} {s : Stmt}

lemma Action.LeaseOnly.own {queue : String} {owner : Owner} {i : Action}
    (h : i.LeaseOnly queue owner) : i.Own queue owner := by
  cases i with
  | call s => exact h.1
  | _ => exact trivial

lemma Action.Aside.unseeding {i : Action} (h : i.Aside) : i.Unseeding := by
  rintro rfl
  cases h

/-- An action of a consumer that does not set the flag `seeded`. -/
abbrev Action.Regular (queue : String) (owner : Owner) (i : Action) : Prop :=
  i.Own queue owner ∧ i.Unseeding

section Always

variable {cfg : Config} {owner : Owner}

lemma always_callUnless {N : Action → Prop} {s : Stmt} (hs : N (.call s)) (skip : Prop)
    {_ : Decidable skip} : (if skip then pure true else do
      let r ← call s
      pure r.isSome : Code Bool).Always N := by
  split
  · exact .pure
  · exact .step hs fun _ => .pure

/-! What touches leases -/

lemma lease_storeHeartbeat (now ttl : Time) (member : Bool) :
    (storeHeartbeat cfg.queue owner now ttl member).Always
      fun i => i.LeaseOnly cfg.queue owner ∧ i.Unseeding := by
  refine .bind ?_ fun joined => ?_
  · unfold membership
    split
    · exact .step ⟨⟨⟨rfl, rfl⟩, rfl⟩, nofun⟩ fun _ => .pure
    · exact .step ⟨⟨⟨rfl, rfl⟩, rfl⟩, nofun⟩ fun _ => .pure
  · cases joined with
    | false => exact .pure
    | true =>
      refine .step ⟨⟨rfl, rfl⟩, nofun⟩ fun expired => ?_
      cases expired with
      | none => exact .pure
      | some _ =>
        refine .step ⟨⟨rfl, rfl⟩, nofun⟩ fun members => ?_
        cases members with
        | none => exact .pure
        | some _ =>
          refine .step ⟨⟨⟨rfl, rfl⟩, rfl⟩, nofun⟩ fun leases => ?_
          cases leases with
          | none | some _ => exact .pure

lemma lease_releaseDrained (now : Time) :
    (releaseDrained cfg owner now).Always fun i => i.LeaseOnly cfg.queue owner ∧ i.Unseeding:= by
  refine .step ⟨rfl, nofun⟩ fun release => ?_
  refine .bind (always_callUnless ⟨⟨⟨rfl, rfl⟩, rfl⟩, nofun⟩ _) fun released => ?_
  cases released with
  | false => exact .pure
  | true => exact .step ⟨rfl, nofun⟩ fun _ => .pure

lemma lease_grow (now : Time) (need : ℕ) (draining : List ℤ) :
    (grow cfg owner now need draining).Always
      fun i => i.LeaseOnly cfg.queue owner ∧ i.Unseeding := by
  refine .bind (always_callUnless ⟨⟨⟨rfl, rfl⟩, rfl⟩, nofun⟩ _) fun undrained => ?_
  cases undrained with
  | false => exact .pure
  | true =>
    refine .step ⟨rfl, nofun⟩ fun _ => ?_
    split
    · exact .pure
    · refine .step ⟨⟨⟨rfl, rfl⟩, rfl⟩, nofun⟩ fun acquired => ?_
      cases acquired with
      | none => exact .pure
      | some acquired =>
        exact .step ⟨rfl, nofun⟩ fun _ => always_callUnless ⟨⟨⟨rfl, rfl⟩, rfl⟩, nofun⟩ _

lemma lease_shrink (now : Time) (active : List ℤ) (n : ℕ) :
    (shrink cfg owner now active n).Always fun i => i.LeaseOnly cfg.queue owner ∧ i.Unseeding:= by
  refine .step ⟨rfl, nofun⟩ fun drain => ?_
  refine .bind (always_callUnless ⟨⟨⟨rfl, rfl⟩, rfl⟩, nofun⟩ _) fun drained => ?_
  cases drained with
  | false => exact .pure
  | true => exact .step ⟨rfl, nofun⟩ fun _ => lease_releaseDrained now

lemma lease_balance (now : Time) (target : ℕ) :
    (balance cfg owner now target).Always fun i => i.LeaseOnly cfg.queue owner ∧ i.Unseeding:= by
  refine .step ⟨rfl, nofun⟩ fun ps => ?_
  split
  · exact lease_grow now _ _
  · split
    · exact lease_shrink now _ _
    · exact .pure

lemma lease_renewAndBalance (now : Time) :
    (renewAndBalance cfg owner now).Always fun i => i.LeaseOnly cfg.queue owner ∧ i.Unseeding:= by
  refine .step ⟨rfl, nofun⟩ fun stopping => ?_
  refine .bind (lease_storeHeartbeat _ _ _) fun beat => ?_
  cases beat with
  | none => exact .pure
  | some hm =>
    refine .step ⟨rfl, nofun⟩ fun _ => ?_
    refine .bind (.step ⟨rfl, nofun⟩ fun _ =>
      always_callUnless ⟨⟨⟨rfl, rfl⟩, rfl⟩, nofun⟩ _) fun wasReset => ?_
    cases wasReset with
    | false => exact .pure
    | true =>
      refine .bind (lease_releaseDrained now) fun released => ?_
      cases released with
      | false => exact .pure
      | true => exact lease_balance now _

lemma always_ensureSeeded :
    (ensureSeeded cfg).Always (Action.LeaseOnly cfg.queue owner) := by
  refine .step rfl fun seeded => ?_
  cases seeded with
  | true => exact .pure
  | false =>
    refine .step ⟨rfl, rfl⟩ fun created => ?_
    cases created with
    | none => exact .pure
    | some _ => exact .step rfl fun _ => .pure

/-! What has nothing to do with leases -/

lemma aside_undispatchOrphans (queue : String) :
    (undispatchOrphans owner).Always fun i => i.Own queue owner ∧ i.Aside := by
  refine .step ⟨trivial, rfl⟩ fun stamps => ?_
  refine .bind (always_callUnless ⟨rfl, rfl⟩ _) fun ok => ?_
  cases ok with
  | false => exact .pure
  | true => exact .step ⟨trivial, rfl⟩ fun _ => .pure

lemma aside_reconcileInFlight :
    (reconcileInFlight cfg owner).Always fun i => i.Own cfg.queue owner ∧ i.Aside := by
  refine .step ⟨trivial, rfl⟩ fun needed => ?_
  cases needed with
  | false => exact .pure
  | true =>
    refine .step ⟨⟨rfl, rfl⟩, rfl⟩ fun stamped => ?_
    cases stamped with
    | none => exact .pure
    | some stamped =>
      refine .step ⟨trivial, rfl⟩ fun untracked => ?_
      refine .bind (always_callUnless ⟨rfl, rfl⟩ _) fun ok => ?_
      cases ok with
      | false => exact .pure
      | true => exact .step ⟨trivial, rfl⟩ fun _ => .pure

/-! Everything -/

lemma regular_undispatch (stamps : List Stamp) (notBefore : ℤ) :
    (undispatch owner stamps notBefore).Always (Action.Regular cfg.queue owner) := by
  refine .bind (always_callUnless ⟨rfl, nofun⟩ _) fun ok => ?_
  cases ok with
  | false | true => exact .step ⟨trivial, nofun⟩ fun _ => .pure

lemma regular_poll (now : Time) (limit : ℕ) :
    (poll cfg owner now limit).Always (Action.Regular cfg.queue owner) := by
  refine .step ⟨trivial, nofun⟩ fun _ => .step ⟨⟨rfl, rfl⟩, nofun⟩ fun rows => ?_
  cases rows with
  | none | some rows =>
    exact .step ⟨trivial, nofun⟩ fun _ => .step ⟨trivial, nofun⟩ fun _ => .pure

lemma regular_ack (cs : List Completion) (createdAt : ℤ) :
    (ack owner cs createdAt).Always (Action.Regular cfg.queue owner) := by
  refine .bind ?_ fun acked => ?_
  · unfold storeAck
    split
    · exact .pure
    · refine .step ⟨rfl, nofun⟩ fun r => ?_
      cases r with
      | none | some _ => exact .pure
  · cases acked with
    | none => exact .pure
    | some _ => exact .step ⟨trivial, nofun⟩ fun _ => .pure

lemma regular_retry (stamp : Stamp) (notBefore : ℤ) (envelope : String) :
    (retry owner stamp notBefore envelope).Always (Action.Regular cfg.queue owner) := by
  refine .step ⟨rfl, nofun⟩ fun retried => ?_
  cases retried with
  | none => exact .pure
  | some _ => exact .step ⟨trivial, nofun⟩ fun _ => .pure

lemma regular_close : (close cfg owner).Always (Action.Regular cfg.queue owner) := by
  refine .step ⟨trivial, nofun⟩ fun _ => ?_
  refine .bind ((aside_undispatchOrphans _).mono fun _ h => ⟨h.1, h.2.unseeding⟩)
    fun undispatched => ?_
  refine .step ⟨⟨rfl, rfl⟩, nofun⟩ fun left => ?_
  cases left with
  | none => exact .step ⟨trivial, nofun⟩ fun _ => .pure
  | some _ =>
    exact .step ⟨trivial, nofun⟩ fun _ => .step ⟨trivial, nofun⟩ fun _ => .pure

lemma regular_afterSeeded (now : Time) :
    (do
      let undispatched ← undispatchOrphans owner
      let reconciled ← reconcileInFlight cfg owner
      let balanced ← renewAndBalance cfg owner now
      pure (undispatched && reconciled && balanced) : Code Bool).Always
      (Action.Regular cfg.queue owner) :=
  .bind ((aside_undispatchOrphans _).mono fun _ h => ⟨h.1, h.2.unseeding⟩) fun _ =>
    .bind (aside_reconcileInFlight.mono fun _ h => ⟨h.1, h.2.unseeding⟩) fun _ =>
    .bind ((lease_renewAndBalance now).mono fun _ h => ⟨h.1.own, h.2⟩) fun _ => .pure

lemma regular_code {o : Op} (ho : ∀ now, o ≠ .rebalance now) :
    (o.code cfg owner).Always (Action.Regular cfg.queue owner) := by
  cases o with
  | poll now limit => exact .bind (regular_poll now limit) fun _ => .pure
  | ack cs createdAt => exact .bind (regular_ack cs createdAt) fun _ => .pure
  | retry stamp notBefore envelope => exact .bind (regular_retry _ _ _) fun _ => .pure
  | undispatch stamps | defer stamps notBefore =>
    exact .bind (regular_undispatch _ _) fun _ => .pure
  | abandon stamps | stop => exact Prog.always_perform.mpr ⟨trivial, nofun⟩
  | rebalance now => exact absurd rfl (ho now)
  | close => exact .bind regular_close fun _ => .pure

/-- All statements of a consumer carry its queue and name. -/
theorem own_code (o : Op) : (o.code cfg owner).Always (Action.Own cfg.queue owner) := by
  cases o with
  | rebalance now =>
    refine .bind (.step trivial fun _ => .bind ?_ fun _ => .step trivial fun _ => .pure)
      fun _ => .pure
    refine .bind (always_ensureSeeded.mono fun _ h => h.own) fun seeded => ?_
    cases seeded with
    | false => exact .pure
    | true => exact (regular_afterSeeded now).mono fun _ h => h.1
  | _ =>
    refine (regular_code fun _ h => ?_).mono fun _ h => h.1
    cases h

end Always

/-! ### What holds of every run -/

/-- Facts about the database that do not depend on what consumers remember. -/
structure Cluster.Known (cfg : Owner → Config) (σ : Cluster) : Prop where
  /-- The history is one of interleaved statements. -/
  reachable : σ.world.Reachable
  /-- A consumer only owns partitions of its queue. -/
  own_queue : ∀ c pk p, σ.world.db.partitions.get? pk = some p → p.owner = c.name →
    pk.queue = (cfg c).queue

variable {cfg : Owner → Config}

lemma Cluster.Known.step {σ σ' : Cluster} (h : σ.Known cfg) {rep : Reply s}
    (hexec : σ.world.exec sched s = some (rep, σ'.world))
    (hacq : ∀ q o now ttl limit, s = .acquirePartitions q o now ttl limit → q = (cfg o).queue) :
    σ'.Known cfg := by
  obtain ⟨hdb, -⟩ := World.exec_eq_some.mp hexec
  refine ⟨h.reachable.tail ⟨sched, s, rep, hexec⟩, ?_⟩
  intro c pk p' hp' howner
  obtain ⟨evs, -, heff⟩ := σ.world.db.exec_partitionEffect hdb pk
  cases heff with
  | keep hkeep => exact h.own_queue c pk p' (hkeep ▸ hp') howner
  | create hp hp'' hnone =>
    rw [hp'', some.injEq] at hp'
    subst hp'
    exact absurd (howner.symm.trans hnone) c.name_ne
  | renew hp hp'' | drain hp hp'' =>
    rw [hp'', some.injEq] at hp'
    subst hp'
    exact h.own_queue c pk _ hp howner
  | release hp hp'' | leave hp hp'' =>
    rw [hp'', some.injEq] at hp'
    subst hp'
    exact absurd howner.symm c.name_ne
  | acquire hp hp'' hqueue =>
    rw [hp'', some.injEq] at hp'
    subst hp'
    have hoc := Owner.eq_of_name_eq howner
    subst hoc
    exact hqueue.trans (hacq _ _ _ _ _ rfl)

lemma World.exec_drawn {w w' : World} {rep : Reply s} (hexec : w.exec sched s = some (rep, w'))
    {k : Key} {a : ℤ} (h : a ∈ drawnAttempts w.log k) :
    a ∈ drawnAttempts w'.log k := by
  rw [(World.exec_eq_some.mp hexec).2, drawnAttempts_append]
  exact List.mem_append_left _ h

lemma Cluster.Known.live_of_exec {σ : Cluster} (h : σ.Known cfg) {rep : Reply s} {w : World}
    (hexec : σ.world.exec sched s = some (rep, w)) {c : Owner} {k : Key} {a : ℤ}
    (hl : w.db.Live c k a) :
    σ.world.db.Live c k a ∨ s.dispatcher? = some c ∧ a ∉ drawnAttempts σ.world.log k ∧
        ∃ rows, dispatchedBy s rep = some rows ∧ ∃ q ∈ rows, q.key = k ∧ q.attempt = a := by
  obtain ⟨hdb, -⟩ := World.exec_eq_some.mp hexec
  rcases h.reachable.live_of_exec hdb hl with hl | ⟨hs, hlo, q, hq, hkey, ha⟩
  · exact .inl hl
  · refine .inr ⟨hs, ?_, ?_⟩
    · intro hdrawn
      have := (h.reachable.rowInvariant k).drawn_lt a hdrawn
      omega
    · cases s with
      | dispatch queue owner now limit =>
        have hrep : (σ.world.db.dispatch sched queue owner.name now limit).1 = rep :=
          congrArg Prod.fst (some.inj hdb)
        obtain ⟨q', hq', heq⟩ := List.mem_map.mp hq
        obtain ⟨-, rfl⟩ := Event.dispatched.inj heq
        exact ⟨rep, rfl, q', hrep ▸ hq', hkey, ha⟩
      | _ => cases hs

/-- The facts hold along every run. -/
theorem Cluster.known_of_reachable {ok : Discipline Action Thread Cluster Choice Op EnvStep}
    {P : Pool Action Action.Reply Thread Cluster}
    (h : (system cfg).Reachable ok initial P) : P.state.Known cfg := by
  have h' := ThreadSystem.Reachable.performing
    (N := fun t i => i.Own (cfg t.consumer).queue t.consumer) (fun t o => own_code o) h
  refine ThreadSystem.Reachable.invariant (I := fun σ => σ.Known cfg) ?_ ?_ ?_ h'
  · exact ⟨.refl, nofun⟩
  · intro t i ch σ r σ' hσ hok hexec
    change exec t i ch σ = some (r, σ') at hexec
    cases i with
    | lock op =>
      obtain ⟨-, rfl⟩ := exec_lock hexec
      exact ⟨hσ.reachable, hσ.own_queue⟩
    | unlock =>
      obtain rfl := exec_unlock hexec
      exact ⟨hσ.reachable, hσ.own_queue⟩
    | critical s =>
      obtain ⟨-, rfl⟩ := exec_critical hexec
      exact ⟨hσ.reachable, hσ.own_queue⟩
    | call s =>
      rcases exec_call hexec with ⟨-, rfl, -⟩ | ⟨rep, w, hw, rfl, -⟩
      · exact hσ
      · have hw' : σ.world.exec ch.sched s =
            some (rep, (σ.afterCall t.consumer s rep w).world) := hw
        refine hσ.step hw' ?_
        rintro q o now ttl limit rfl
        obtain ⟨rfl, rfl⟩ := hok.2
        rfl
  · intro e σ σ' hσ _ henv
    cases e with
    | crash c =>
      cases henv
      exact ⟨hσ.reachable, hσ.own_queue⟩
    | client sched s =>
      simp only [system, envStep] at henv
      split at henv
      next hclient =>
        obtain ⟨⟨rep, w⟩, hw, rfl⟩ := map_eq_some_iff.mp henv
        have hw' : σ.world.exec sched s = some (rep, { σ with world := w }.world) := hw
        refine hσ.step hw' ?_
        rintro q o now ttl limit rfl
        cases hclient
      · cases henv

/-- What may be assumed of every step: consumers speak for themselves, in a state in which the
facts hold. -/
def sound (cfg : Owner → Config) (ok : Discipline Action Thread Cluster Choice Op EnvStep) :
    Discipline Action Thread Cluster Choice Op EnvStep :=
  (ok.performing fun t i _ => i.Own (cfg t.consumer).queue t.consumer).assuming
    (Cluster.Known cfg)

/-- Every run is sound. -/
theorem reachable_sound {ok : Discipline Action Thread Cluster Choice Op EnvStep}
    {P : Pool Action Action.Reply Thread Cluster} (h : (system cfg).Reachable ok initial P) :
    (system cfg).Reachable (sound cfg ok) initial P :=
  ThreadSystem.Reachable.assuming (fun _ hP => known_of_reachable hP)
    (ThreadSystem.Reachable.performing (fun _ o => own_code o) h)

/-! ### Code, step by step -/

/-- The code is safe in every sound run. -/
abbrev Runs (cfg : Owner → Config) (ok : Discipline Action Thread Cluster Choice Op EnvStep)
    (I : Cluster → Prop) (R : Thread → Cluster → Cluster → Prop)
    (G : Thread → Action → Cluster → Prop) (t : Thread) {α : Type} (p : Code α)
    (Q : α → Cluster → Prop) (σ : Cluster) : Prop :=
  (system cfg).Safe (sound cfg ok) I R G t p Q σ

namespace Runs

open ThreadSystem

variable {ok : Discipline Action Thread Cluster Choice Op EnvStep} {I : Cluster → Prop}
  {R : Thread → Cluster → Cluster → Prop} {G : Thread → Action → Cluster → Prop} {t : Thread}
  {α β : Type} {Q : β → Cluster → Prop} {σ : Cluster}

lemma step {i : Action} {f : i.Reply → Code β}
    (h : ∀ σ₁ ch r σ₂, R t σ σ₁ → I σ₁ → σ₁.Known cfg → ok.act t i ch σ₁ →
      exec t i ch σ₁ = some (r, σ₂) →
      G t i σ₁ ∧ Keeps I R t σ₁ σ₂ ∧ Runs cfg ok I R G t (f r) Q σ₂) :
    Runs cfg ok I R G t (Prog.perform i >>= f) Q σ :=
  Safe.step fun σ₁ ch r σ₂ hR hI hok hexec => h σ₁ ch r σ₂ hR hI hok.2 hok.1.1 hexec

variable [∀ t, IsPreorder Cluster (R t)]

lemma call {s : Stmt} {f : Option (Reply s) → Code β}
    (hs : ∀ σ₁ ch, R t σ σ₁ → I σ₁ → σ₁.Known cfg → ok.act t (.call s) ch σ₁ →
      G t (.call s) σ₁ ∧ ∀ rep w, σ₁.world.exec ch.sched s = some (rep, w) →
        Spares I R σ₁ (σ₁.afterCall t.consumer s rep w))
    (h : ∀ r σ', R t σ σ' → (∀ rep, r = some rep → ∃ σ₁ sched w, R t σ σ₁ ∧ I σ₁ ∧ σ₁.Known cfg ∧
      σ₁.world.exec sched s = some (rep, w) ∧ σ' = σ₁.afterCall t.consumer s rep w) →
      (r = none → ∃ σ₁ ch, ok.act t (.call s) ch σ₁ ∧ ch.outcome ≠ .ok) →
      Runs cfg ok I R G t (f r) Q σ') :
    Runs cfg ok I R G t (SqlQueue.call s >>= f) Q σ := by
  refine step fun σ₁ ch r σ₂ hR hI hK hok hexec => ?_
  obtain ⟨hG, hspare⟩ := hs σ₁ ch hR hI hK hok
  have hspare₂ : Spares I R σ₁ σ₂ := by
    rcases exec_call hexec with ⟨-, rfl, -⟩ | ⟨rep, w, hw, rfl, -⟩
    · exact Spares.refl hI
    · exact hspare rep w hw
  refine ⟨hG, hspare₂.keeps t, h r σ₂ (trans_of (R t) hR (hspare₂.2 t)) ?_ ?_⟩
  · intro rep' hr
    rcases exec_call hexec with ⟨hnone, -⟩ | ⟨rep, w, hw, hσ₂, ⟨hsome, -⟩ | ⟨hnone, -⟩⟩
    · rw [hnone] at hr
      cases hr
    · rw [hsome, some.injEq] at hr
      subst hr
      exact ⟨σ₁, ch.sched, w, hR, hI, hK, hw, hσ₂⟩
    · rw [hnone] at hr
      cases hr
  · exact fun hr => ⟨σ₁, ch, hok, outcome_of_none (hr ▸ hexec)⟩

lemma critical {s : Critical} {f : s.Reply → Code β}
    (hs : ∀ σ₁, R t σ σ₁ → I σ₁ → G t (.critical s) σ₁ ∧
      Spares I R σ₁ (σ₁.afterCritical t.consumer s))
    (h : ∀ σ₁, R t σ σ₁ → I σ₁ → R t σ (σ₁.afterCritical t.consumer s) →
      Runs cfg ok I R G t (f (s.run (σ₁.memory t.consumer)).1) Q (σ₁.afterCritical t.consumer s)) :
    Runs cfg ok I R G t (SqlQueue.critical s >>= f) Q σ := by
  refine step fun σ₁ ch r σ₂ hR hI _ _ hexec => ?_
  obtain ⟨rfl, rfl⟩ := exec_critical hexec
  obtain ⟨hG, hspare⟩ := hs σ₁ hR hI
  exact ⟨hG, hspare.keeps t, h σ₁ hR hI (trans_of (R t) hR (hspare.2 t))⟩

lemma always {N : Action → Prop} {p : Code α} (hp : p.Always N)
    (hN : ∀ i, N i → ∀ σ₁ ch r σ₂, R t σ σ₁ → I σ₁ → σ₁.Known cfg → ok.act t i ch σ₁ →
      exec t i ch σ₁ = some (r, σ₂) → G t i σ₁ ∧ Spares I R σ₁ σ₂) :
    Runs cfg ok I R G t p (fun _ σ' => R t σ σ') σ := by
  refine Safe.of_always (A := fun σ' => R t σ σ') ?_ ?_ hp (refl_of (R t) σ)
  · exact fun σ₁ σ₂ h₁ h₂ => trans_of (R t) h₁ h₂
  · intro i hi σ₁ ch r σ₂ hA hI hok hexec
    obtain ⟨hG, hspare⟩ := hN i hi σ₁ ch r σ₂ hA hI hok.2 hok.1.1 hexec
    exact ⟨hG, hspare.keeps t, trans_of (R t) hA (hspare.2 t)⟩

lemma bind_always {N : Action → Prop} {p : Code α} {f : α → Code β} (hp : p.Always N)
    (hN : ∀ i, N i → ∀ σ₁ ch r σ₂, R t σ σ₁ → I σ₁ → σ₁.Known cfg → ok.act t i ch σ₁ →
      exec t i ch σ₁ = some (r, σ₂) → G t i σ₁ ∧ Spares I R σ₁ σ₂)
    (h : ∀ a σ', R t σ σ' → Runs cfg ok I R G t (f a) Q σ') :
    Runs cfg ok I R G t (p >>= f) Q σ :=
  Safe.bind (Safe.weaken (always hp hN) h)

end Runs

end LlmdAsync.SqlQueue
