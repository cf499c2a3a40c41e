import LlmdAsync.SqlQueue.InflightCount

/-!
# Graceful handoff

As long as store calls succeed, leases do not lapse, drains are not overdue and nobody closes with
requests in flight, partitions move between consumers without a redelivery: a request is only
dispatched again after its last dispatch has been settled by `Retry`, `Undispatch` or `Defer`.

The reason is that a stamped row carries the current epoch of a partition that is owned
(`HandedOver.current`).  A partition is only given up when nothing of it is in flight, and a stamp
in force is in flight (`Covered`), with the partition and epoch of its row (`HandedOver.entries`).
So `ResetStale` never finds anything.
-/

namespace LlmdAsync.SqlQueue

open List Option Database Cluster Consumer World Event

/-! ### Settled dispatches -/

/-- Every dispatch in the log has been returned to pending later, or the key has been enqueued anew,
unless it is the dispatch in force. -/
def SettledBut (k : Key) (log : List Event) (inForce : Option ℤ) : Prop :=
  ∀ pre owner q post, log = pre ++ .dispatched owner q :: post → q.key = k →
    .enqueued k ∉ post → .requeued q.stamp ∈ post ∨ some q.attempt = inForce

/-- Whenever the key was dispatched, everything before was settled. -/
def NoRedelivery (k : Key) (log : List Event) : Prop :=
  ∀ pre owner q post, log = pre ++ .dispatched owner q :: post → q.key = k → SettledBut k pre none

variable {k : Key} {sched : Sched} {s : Stmt} {σ : Cluster} {queue : String} {c : Owner}
  {m : Consumer}

lemma concat_eq_append_cons {α : Type*} {l pre post : List α} {e d : α}
    (h : l ++ [e] = pre ++ d :: post) :
    post = [] ∧ pre = l ∧ d = e ∨ ∃ post', post = post' ++ [e] ∧ l = pre ++ d :: post' := by
  rcases eq_nil_or_concat post with rfl | ⟨post', e', rfl⟩
  · obtain ⟨hl, he⟩ := append_inj' h rfl
    exact .inl ⟨rfl, hl.symm, (singleton_inj.mp he).symm⟩
  · rw [concat_eq_append, ← cons_append, ← append_assoc] at h
    obtain ⟨hl, he⟩ := append_inj' h rfl
    rw [singleton_inj] at he
    subst he
    exact .inr ⟨post', concat_eq_append .., hl⟩

section Log

variable {k : Key} {log : List Event} {inForce : Option ℤ}

lemma NoRedelivery.nil : NoRedelivery k [] := by
  intro pre owner q post h
  simp at h

lemma SettledBut.dispatched (h : SettledBut k log none) (owner : String) (q : Request) :
    SettledBut k (log ++ [.dispatched owner q]) (some q.attempt) := by
  intro pre owner' q' post hlog hkey henq
  rcases concat_eq_append_cons hlog with ⟨-, -, heq⟩ | ⟨post', rfl, hold⟩
  · cases heq
    exact .inr rfl
  · rcases h pre owner' q' post' hold hkey fun hmem => henq (mem_append_left _ hmem) with
      hr | hn
    · exact .inl (mem_append_left _ hr)
    · cases hn

lemma SettledBut.requeued {a : ℤ} (h : SettledBut k log (some a)) :
    SettledBut k (log ++ [.requeued ⟨k, a⟩]) none := by
  intro pre owner q post hlog hkey henq
  rcases concat_eq_append_cons hlog with ⟨-, -, heq⟩ | ⟨post', rfl, hold⟩
  · cases heq
  · refine .inl ?_
    rcases h pre owner q post' hold hkey fun hmem => henq (mem_append_left _ hmem) with hr | ha
    · exact mem_append_left _ hr
    · refine mem_append_right _ (mem_singleton.mpr ?_)
      rw [Request.stamp, hkey, some.inj ha]

lemma SettledBut.enqueued : SettledBut k (log ++ [.enqueued k]) none := by
  intro pre owner q post hlog _ henq
  rcases concat_eq_append_cons hlog with ⟨-, -, heq⟩ | ⟨post', rfl, -⟩
  · cases heq
  · exact absurd (mem_append_right _ mem_cons_self) henq

lemma NoRedelivery.concat {e : Event} (h : NoRedelivery k log)
    (he : ∀ owner q, e = .dispatched owner q → q.key = k → SettledBut k log none) :
    NoRedelivery k (log ++ [e]) := by
  intro pre owner q post hlog hkey
  rcases concat_eq_append_cons hlog with ⟨-, rfl, heq⟩ | ⟨post', -, hold⟩
  · exact he owner q heq.symm hkey
  · exact h pre owner q post' hold hkey

end Log

lemma NoRedelivery.of_aboutKey {log : List Event}
    (h : NoRedelivery k (aboutKey k log)) : NoRedelivery k log := by
  rintro pre owner q post rfl hkey pre' owner' q' post' rfl hkey' henq
  have hq : aboutKey k [dispatched owner q] = [.dispatched owner q] := by
    simp [aboutKey, key?, hkey]
  have hq' : aboutKey k [dispatched owner' q'] = [.dispatched owner' q'] := by
    simp [aboutKey, key?, hkey']
  have hsplit : ∀ (a b : List Event) (e : Event), aboutKey k (a ++ e :: b) =
      aboutKey k a ++ (aboutKey k [e] ++ aboutKey k b) := by
    intro a b e
    rw [← singleton_append, aboutKey_append, aboutKey_append]
  have hmem : ∀ e ∈ aboutKey k post', e ∈ post' := fun e he => (mem_filter.mp he).1
  have hsettled : SettledBut k (aboutKey k (pre' ++ .dispatched owner' q' :: post')) none := by
    refine h _ owner q (aboutKey k post) ?_ hkey
    rw [hsplit, hq]
    rfl
  have hpre : aboutKey k (pre' ++ .dispatched owner' q' :: post') =
      aboutKey k pre' ++ .dispatched owner' q' :: aboutKey k post' := by
    rw [hsplit, hq']
    rfl
  exact Or.imp_left (hmem _) (hsettled _ owner' q' _ hpre hkey' fun he => henq (hmem _ he))

/-! ### The discipline -/

/-- No call fails, no lease has lapsed when partitions are acquired, no drain is overdue, consumers
leave with nothing in flight, and nobody abandons requests. -/
def graceful : Discipline Action Thread Cluster Choice Op EnvStep where
  act t i ch σ :=
    match i with
    | .call s => ch.outcome = .ok ∧
      match s with
      | .acquirePartitions queue _ now _ _ => ∀ p ∈ σ.world.db.partitions.rows,
          p.key.queue = queue → p.owner ≠ "" → now.unixMilli ≤ p.leaseExpiresMs
      | .leave .. => (σ.memory t.consumer).inflight.rows = []
      | _ => True
    | .critical (.drained now timeout) => ∀ st ∈ (σ.memory t.consumer).leases.rows,
        st.draining = true → st.inflight = 0 ∨ now - st.drainSince < timeout
    | _ => True
  start _ o _ := ∀ stamps, o ≠ .abandon stamps
  env _ _ := True

instance (t : Thread) (i : Action) (ch : Choice) (σ : Cluster) :
    Decidable (graceful.act t i ch σ) := by
  cases i with
  | call s =>
    cases s with
    | acquirePartitions | leave => exact inferInstanceAs (Decidable (_ ∧ _))
    | _ => exact inferInstanceAs (Decidable (_ ∧ True))
  | critical s =>
    cases s with
    | drained => exact inferInstanceAs (Decidable (∀ st ∈ _, _))
    | _ => exact isTrue trivial
  | _ => exact isTrue trivial

lemma graceful_graceful : Graceful graceful where
  outcome _ _ _ _ h := h.1
  patient _ _ _ _ _ h _ st hst := h st (Table.get?_eq_some.mp hst).1
  start _ stamps _ h := h stamps rfl

/-! ### The invariant -/

/-- A row stamped with attempt `a` is in partition `p` and carries epoch `e`. -/
def Database.Fits (db : Database) (k : Key) (a p e : ℤ) : Prop :=
  ∀ r, db.requests.get? k = some r → 0 < r.dispatchEpoch → r.dispatchAttempt = a →
    r.partition = p ∧ r.dispatchEpoch = e

/-- The attempt of a row that is stamped. -/
def RequestRow.inForce (r : RequestRow) : Option ℤ :=
  if 0 < r.dispatchEpoch then some r.dispatchAttempt else none

/-- No stamp is stale, and dispatches are settled one after the other. -/
structure HandedOver (σ : Cluster) : Prop where
  /-- Stamped rows carry the current epoch of an owned partition. -/
  current : ∀ k r, σ.world.db.requests.get? k = some r → 0 < r.dispatchEpoch →
    ∃ p, σ.world.db.partitionOfRow r = some p ∧ p.epoch = r.dispatchEpoch ∧ p.owner ≠ ""
  /-- In-flight entries tell where their rows are. -/
  entries : ∀ c k x, (σ.memory c).inflight.get? k = some x →
    x.attempt ∈ drawnAttempts σ.world.log k ∧
      σ.world.db.Fits k x.attempt x.partition x.epoch
  /-- So do polled requests. -/
  polled : ∀ c, ∀ q ∈ σ.polling c, q.attempt ∈ drawnAttempts σ.world.log q.key ∧
    σ.world.db.Fits q.key q.attempt q.partition q.epoch
  /-- There are no orphans, and nothing to reconcile. -/
  calm : ∀ c, (σ.memory c).reconcile = false ∧ ∀ k, (σ.memory c).orphans.get? k = none
  /-- All dispatches have been settled, but the one in force. -/
  settled : ∀ k r, σ.world.db.requests.get? k = some r →
    SettledBut k (aboutKey k σ.world.log) r.inForce
  /-- And so it was at every dispatch. -/
  noRedelivery : ∀ k, NoRedelivery k (aboutKey k σ.world.log)

/-! ### Statements -/

namespace Database

variable {db db' : Database} {sched : Sched} {s : Stmt} {rep : Reply s}

lemma exec_keeps_owner (h : db.exec sched s = some (rep, db')) {pk : PartitionKey}
    {p : PartitionRow} (hp : db.partitions.get? pk = some p) (ho : p.owner ≠ "") :
    (∃ p', db'.partitions.get? pk = some p' ∧ p'.epoch = p.epoch ∧ p'.owner = p.owner) ∨
      (∃ owner now ttl limit, s = .acquirePartitions pk.queue owner now ttl limit ∧
        p.leaseExpiresMs < now.unixMilli) ∨
      (∃ owner ps, s = .releasePartitions pk.queue owner ps ∧ p.owner = owner.name ∧
        pk.partition ∈ ps) ∨
      ∃ owner, s = .leave pk.queue owner ∧ p.owner = owner.name := by
  obtain ⟨evs, -, heff⟩ := db.exec_partitionEffect h pk
  cases heff with
  | keep hkeep => exact .inl ⟨p, hkeep.trans hp, rfl, rfl⟩
  | create hnone =>
    rw [hnone] at hp
    cases hp
  | renew hp₁ hp' | drain hp₁ hp' =>
    rw [hp₁, some.injEq] at hp
    subst hp
    exact .inl ⟨_, hp', rfl, rfl⟩
  | acquire hp₁ hp' hqueue hfree =>
    rw [hp₁, some.injEq] at hp
    subst hp
    exact .inr (.inl ⟨_, _, _, _, by rw [hqueue], hfree.resolve_left ho⟩)
  | release hp₁ hp' hqueue howner hnamed =>
    rw [hp₁, some.injEq] at hp
    subst hp
    exact .inr (.inr (.inl ⟨_, _, by rw [hqueue], howner, hnamed⟩))
  | leave hp₁ hp' hqueue howner =>
    rw [hp₁, some.injEq] at hp
    subst hp
    exact .inr (.inr (.inr ⟨_, by rw [hqueue], howner⟩))

lemma stamped_of_exec (h : db.exec sched s = some (rep, db')) {k : Key} {r' : RequestRow}
    (hr' : db'.requests.get? k = some r') (hstamped : 0 < r'.dispatchEpoch) :
    (∃ r, db.requests.get? k = some r ∧ r.partitionKey = r'.partitionKey ∧
      r.dispatchEpoch = r'.dispatchEpoch ∧ r.dispatchAttempt = r'.dispatchAttempt) ∨
      ∃ queue owner now limit p, s = .dispatch queue owner now limit ∧
        db'.partitionOfRow r' = some p ∧ p.owner = owner.name ∧ p.epoch = r'.dispatchEpoch ∧
        db.nextAttempt ≤ r'.dispatchAttempt := by
  obtain ⟨evs, -, heff⟩ := db.exec_rowEffect h k
  cases heff with
  | keep hkeep => exact .inl ⟨r', hkeep ▸ hr', rfl, rfl, rfl⟩
  | cancel hr hr₁ =>
    rw [hr₁, some.injEq] at hr'
    subst hr'
    exact .inl ⟨_, hr, rfl, rfl, rfl⟩
  | enqueue hr hr₁ hfresh =>
    rw [hr₁, some.injEq] at hr'
    subst hr'
    exact absurd hstamped (by rw [hfresh.epoch_eq]; decide)
  | dispatch hr hr₁ hqueue hpending hp howner hactive hlo hhi =>
    rw [hr₁, some.injEq] at hr'
    subst hr'
    refine .inr ⟨_, _, _, _, _, rfl, ?_, howner, rfl, hlo⟩
    rw [partitionOfRow, partitions_dispatch h]
    exact hp
  | undispatch hr hr₁ | retry hr hr₁ | reset hr hr₁ =>
    rw [hr₁, some.injEq] at hr'
    subst hr'
    exact absurd hstamped (lt_irrefl 0)
  | ack hr hr₁ =>
    rw [hr₁] at hr'
    cases hr'

lemma Fits.exec {w : World} (hw : w.Reachable) (h : w.db.exec sched s = some (rep, db')) {k : Key}
    {a p e : ℤ} (hdrawn : a ∈ drawnAttempts w.log k) (hfits : w.db.Fits k a p e) :
    db'.Fits k a p e := by
  intro r' hr' hstamped ha
  rcases stamped_of_exec h hr' hstamped with ⟨r, hr, hpk, hepoch, hattempt⟩ | hnew
  · obtain ⟨hp, he⟩ := hfits r hr (hepoch ▸ hstamped) (hattempt.trans ha)
    exact ⟨(congrArg PartitionKey.partition hpk).symm.trans hp, hepoch.symm.trans he⟩
  · obtain ⟨-, -, -, -, -, -, -, -, -, hlo⟩ := hnew
    have hlt := (hw.rowInvariant k).drawn_lt a hdrawn
    omega

lemma fits_of_mem_dispatch {queue owner : String} {now : Time} {limit : ℕ} {q : Request}
    (h : q ∈ (db.dispatch sched queue owner now limit).1) :
    (db.dispatch sched queue owner now limit).2.Fits q.key q.attempt q.partition q.epoch := by
  intro r hr _ _
  have hq := (mem_dispatch.mp h).2
  rw [hr, map_some, some.injEq] at hq
  rw [← hq]
  exact ⟨rfl, rfl⟩

end Database

variable {w : World}

lemma World.Reachable.epoch_pos (hw : w.Reachable) {pk : PartitionKey} {p : PartitionRow}
    (hp : w.db.partitions.get? pk = some p) (ho : p.owner ≠ "") :
    0 < p.epoch := by
  have hinv := hw.leaseInvariant pk
  have hlen := hinv.length_acquirers p.epoch
  have hne := length_pos_of_mem (hinv.holder p hp ho)
  split at hlen
  next hbounds =>
    exact hbounds.1
  · omega

lemma settled_exec {w' : World} (hw : w.Reachable) {rep : Reply s}
    (hexec : w.exec sched s = some (rep, w'))
    (hcurrent : ∀ r, w.db.requests.get? k = some r → 0 < r.dispatchEpoch →
      ∃ p, w.db.partitionOfRow r = some p ∧ p.epoch = r.dispatchEpoch)
    (hsettled : ∀ r, w.db.requests.get? k = some r → SettledBut k (aboutKey k w.log) r.inForce)
    (hno : NoRedelivery k (aboutKey k w.log)) :
    (∀ r, w'.db.requests.get? k = some r → SettledBut k (aboutKey k w'.log) r.inForce) ∧
      NoRedelivery k (aboutKey k w'.log) := by
  obtain ⟨hdb, hlog⟩ := exec_eq_some.mp hexec
  obtain ⟨evs, hevs, heff⟩ := w.db.exec_rowEffect hdb k
  rw [hlog, aboutKey_append, hevs]
  cases heff with
  | keep hkeep =>
    rw [append_nil, hkeep]
    exact ⟨hsettled, hno⟩
  | cancel hr hr' =>
    rw [append_nil, hr']
    refine ⟨?_, hno⟩
    rintro r' hr''
    cases hr''
    have hopen := hsettled _ hr
    exact hopen
  | enqueue hr hr' hfresh =>
    refine ⟨fun r' hr'' => ?_, hno.concat nofun⟩
    rw [hr', some.injEq] at hr''
    rw [← hr'', RequestRow.inForce, if_neg (by rw [hfresh.epoch_eq]; decide)]
    exact SettledBut.enqueued
  | @dispatch _ _ _ _ r p a hr hr' hqueue hpending hp howner =>
    have hopen := hsettled r hr
    rw [RequestRow.inForce, if_neg (by rw [hpending]; decide)] at hopen
    refine ⟨fun r' hr'' => ?_, hno.concat fun owner q heq hkey => hopen⟩
    have hpos := hw.epoch_pos hp (howner ▸ Owner.name_ne _)
    rw [hr', some.injEq] at hr''
    rw [← hr'', RequestRow.inForce, if_pos hpos]
    exact hopen.dispatched _ _
  | @undispatch _ _ _ r p hr hr' hnamed hstamped | @retry _ _ _ r p hr hr' hstamped =>
    refine ⟨fun r' hr'' => ?_, hno.concat nofun⟩
    have hopen := hsettled r hr
    rw [RequestRow.inForce, if_pos hstamped] at hopen
    rw [hr', some.injEq] at hr''
    rw [← hr'', RequestRow.inForce, if_neg (lt_irrefl 0)]
    exact hopen.requeued
  | @reset _ _ _ r p hr hr' hstamped hp howner hold =>
    obtain ⟨p', hp', hepoch⟩ := hcurrent r hr hstamped
    rw [hp, some.injEq] at hp'
    subst hp'
    exact absurd hepoch (ne_of_gt hold)
  | ack hr hr' =>
    refine ⟨fun r' hr'' => ?_, hno.concat nofun⟩
    rw [hr'] at hr''
    cases hr''

variable {cfg : Owner → Config} {t : Thread}

lemma handedOver_exec (hσ : HandedOver σ) (hK : σ.Known cfg) {rep : Reply s}
    (hexec : σ.world.exec sched s = some (rep, w))
    (hkeep : ∀ k r p, σ.world.db.requests.get? k = some r → 0 < r.dispatchEpoch →
      σ.world.db.partitionOfRow r = some p → p.owner ≠ "" → p.epoch = r.dispatchEpoch →
      ∃ p', w.db.partitions.get? r.partitionKey = some p' ∧ p'.epoch = p.epoch ∧
        p'.owner = p.owner) :
    HandedOver { σ with world := w } := by
  obtain ⟨hdb, hlog⟩ := exec_eq_some.mp hexec
  have hlogs : ∀ k, (∀ r, w.db.requests.get? k = some r →
      SettledBut k (aboutKey k w.log) r.inForce) ∧ NoRedelivery k (aboutKey k w.log) := by
    refine fun k => settled_exec hK.reachable hexec (fun r hr hst => ?_) (hσ.settled k)
      (hσ.noRedelivery k)
    obtain ⟨p, hp, he, -⟩ := hσ.current k r hr hst
    exact ⟨p, hp, he⟩
  refine ⟨?_, ?_, ?_, hσ.calm, fun k => (hlogs k).1, fun k => (hlogs k).2⟩
  · intro k r' hr' hstamped
    rcases stamped_of_exec hdb hr' hstamped with ⟨r, hr, hpk, hepoch, -⟩ | hnew
    · obtain ⟨p, hp, he, ho⟩ := hσ.current k r hr (hepoch ▸ hstamped)
      obtain ⟨p', hp', he', ho'⟩ := hkeep k r p hr (hepoch ▸ hstamped) hp ho he
      refine ⟨p', ?_, (he'.trans he).trans hepoch, ho' ▸ ho⟩
      rw [partitionOfRow, ← hpk]
      exact hp'
    · obtain ⟨queue, owner, now, limit, p, -, hp, ho, he, -⟩ := hnew
      exact ⟨p, hp, he, ho ▸ owner.name_ne⟩
  · intro c k x hx
    obtain ⟨hd, hfits⟩ := hσ.entries c k x hx
    exact ⟨exec_drawn hexec hd, hfits.exec hK.reachable hdb hd⟩
  · intro c q hq
    obtain ⟨hd, hfits⟩ := hσ.polled c q hq
    exact ⟨exec_drawn hexec hd, hfits.exec hK.reachable hdb hd⟩

lemma handedOver_world (hσ : HandedOver σ) (hK : σ.Known cfg) {rep : Reply s}
    (hexec : σ.world.exec sched s = some (rep, w))
    (hacq : ∀ q o now ttl limit, s ≠ .acquirePartitions q o now ttl limit)
    (hrel : ∀ q o ps, s ≠ .releasePartitions q o ps) (hleave : ∀ q o, s ≠ .leave q o) :
    HandedOver { σ with world := w } := by
  refine handedOver_exec hσ hK hexec fun k r p hr _ hp ho _ => ?_
  rcases exec_keeps_owner (exec_eq_some.mp hexec).1 hp ho with
    hkeep | ⟨o, now, ttl, limit, rfl, -⟩ | ⟨o, ps, rfl, -⟩ | ⟨o, rfl, -⟩
  · exact hkeep
  · exact absurd rfl (hacq _ _ _ _ _)
  · exact absurd rfl (hrel _ _ _)
  · exact absurd rfl (hleave _ _)

lemma handedOver_acquire (hσ : HandedOver σ) (hK : σ.Known cfg) {owner : Owner} {now ttl : Time}
    {limit : ℕ} {rep : Reply (.acquirePartitions queue owner now ttl limit)}
    (hexec : σ.world.exec sched (.acquirePartitions queue owner now ttl limit) = some (rep, w))
    (hlapse : ∀ p ∈ σ.world.db.partitions.rows, p.key.queue = queue → p.owner ≠ "" →
      now.unixMilli ≤ p.leaseExpiresMs) : HandedOver { σ with world := w } := by
  refine handedOver_exec hσ hK hexec fun k r p hr _ hp ho _ => ?_
  rcases exec_keeps_owner (exec_eq_some.mp hexec).1 hp ho with
    hkeep | ⟨o, now', ttl', limit', heq, hlt⟩ | ⟨o, ps, heq, -⟩ | ⟨o, heq, -⟩
  · exact hkeep
  · obtain ⟨hmem, hkey⟩ := Table.get?_eq_some.mp hp
    cases heq
    have hle := hlapse p hmem (by rw [hkey]) ho
    omega
  · cases heq
  · cases heq

lemma HandedOver.tracked (hσ : HandedOver σ) (hcov : Covered σ) (halive : σ.dead c = false)
    (hpoll : σ.polling c = []) {r : RequestRow} {p : PartitionRow}
    (hr : σ.world.db.requests.get? k = some r) (hstamped : 0 < r.dispatchEpoch)
    (hp : σ.world.db.partitionOfRow r = some p) (ho : p.owner = c.name)
    (he : p.epoch = r.dispatchEpoch) :
    ∃ x, (σ.memory c).inflight.get? k = some x ∧ x.partition = r.partition ∧ x.epoch = p.epoch := by
  have hlive : σ.world.db.Live c k r.dispatchAttempt := ⟨r, p, hr, hp, ho, hstamped, he.symm, rfl⟩
  rcases hcov.books c k _ halive hlive with (⟨x, hx, ha⟩ | hor) | hre | ⟨q, hq, -⟩
  · obtain ⟨-, hfits⟩ := hσ.entries c k x hx
    obtain ⟨h₁, h₂⟩ := hfits r hr hstamped ha.symm
    exact ⟨x, hx, h₁.symm, (he.trans h₂).symm⟩
  · rw [(hσ.calm c).2 k] at hor
    cases hor
  · rw [(hσ.calm c).1] at hre
    cases hre
  · rw [hpoll] at hq
    cases hq

lemma handedOver_release (hσ : HandedOver σ) (hK : σ.Known cfg) (hcov : Covered σ)
    (halive : σ.dead c = false) (hpoll : σ.polling c = []) {ps : List ℤ}
    (hquiet : σ.Quiesced cfg c ps) {rep : Reply (.releasePartitions (cfg c).queue c ps)}
    (hexec : σ.world.exec sched (.releasePartitions (cfg c).queue c ps) = some (rep, w)) :
    HandedOver { σ with world := w } := by
  refine handedOver_exec hσ hK hexec fun k r p hr hstamped hp ho he => ?_
  rcases exec_keeps_owner (exec_eq_some.mp hexec).1 hp ho with
    hkeep | ⟨o, now, ttl, limit, heq, -⟩ | ⟨o, ps', heq, howner, hnamed⟩ | ⟨o, heq, -⟩
  · exact hkeep
  · cases heq
  · obtain ⟨hqueue, rfl, rfl⟩ := Stmt.releasePartitions.inj heq
    obtain ⟨x, hx, hxp, hxe⟩ := hσ.tracked hcov halive hpoll hr hstamped hp howner he
    have howns : σ.Owns cfg c r.partition p.epoch := by
      refine ⟨p, ?_, howner, rfl⟩
      rw [hqueue]
      exact hp
    exact absurd ⟨hxp, hxe⟩ (hquiet r.partition hnamed p.epoch howns k x hx)
  · cases heq

lemma handedOver_leave (hσ : HandedOver σ) (hK : σ.Known cfg) (hcov : Covered σ)
    (halive : σ.dead c = false) (hpoll : σ.polling c = []) (hnone : (σ.memory c).inflight.rows = [])
    {rep : Reply (.leave queue c)} (hexec : σ.world.exec sched (.leave queue c) = some (rep, w)) :
    HandedOver { σ with world := w } := by
  refine handedOver_exec hσ hK hexec fun k r p hr hstamped hp ho he => ?_
  rcases exec_keeps_owner (exec_eq_some.mp hexec).1 hp ho with
    hkeep | ⟨o, now, ttl, limit, heq, -⟩ | ⟨o, ps', heq, -⟩ | ⟨o, heq, howner⟩
  · exact hkeep
  · cases heq
  · cases heq
  · obtain ⟨-, rfl⟩ := Stmt.leave.inj heq
    obtain ⟨x, hx, -⟩ := hσ.tracked hcov halive hpoll hr hstamped hp howner he
    have hmem : x ∈ (σ.memory c).inflight.rows := (Table.get?_eq_some.mp hx).1
    rw [hnone] at hmem
    cases hmem

lemma handedOver_dispatch (hσ : HandedOver σ) (hK : σ.Known cfg) {owner : Owner} {now : Time}
    {limit : ℕ} {rep : List Request}
    (hexec : σ.world.exec sched (.dispatch queue owner now limit) = some (rep, w)) :
    HandedOver (σ.afterDispatch c rep w) := by
  have hw : HandedOver { σ with world := w } := by
    refine handedOver_world hσ hK hexec ?_ ?_ ?_
    · exact nofun
    · exact nofun
    · exact nofun
  refine ⟨hw.current, hw.entries, ?_, hw.calm, hw.settled, hw.noRedelivery⟩
  intro c' q hq
  by_cases hc : c' = c
  · subst hc
    rw [polling_afterDispatch_self] at hq
    obtain ⟨hdb, hlog⟩ := exec_eq_some.mp hexec
    have hx := some.inj hdb
    have hrep : (σ.world.db.dispatch sched queue owner.name now limit).1 = rep :=
      congrArg Prod.fst hx
    have hdb' : (σ.world.db.dispatch sched queue owner.name now limit).2 = w.db :=
      congrArg Prod.snd hx
    refine ⟨?_, ?_⟩
    · refine mem_filterMap.mpr ⟨.dispatched owner.name q, ?_, if_pos rfl⟩
      show dispatched owner.name q ∈ w.log
      rw [hlog]
      exact mem_append_right _ (mem_map_of_mem (hrep.symm ▸ hq))
    · show w.db.Fits q.key q.attempt q.partition q.epoch
      rw [← hdb']
      exact fits_of_mem_dispatch (hrep.symm ▸ hq)
  · rw [polling_afterDispatch_of_ne _ _ hc] at hq
    exact hw.polled c' q hq

/-! ### Critical sections -/

lemma Critical.inflight_run {s : Critical} {x : Tracked}
    (h : (s.run m).2.inflight.get? k = some x) :
    m.inflight.get? k = some x ∨ ∃ rows, s = .track rows ∧ ∃ q ∈ rows, q.key = k ∧
      x = tracked q := by
  cases s with
  | track rows =>
    rcases get?_inflight_track h with hold | hnew
    · exact .inl hold
    · exact .inr ⟨rows, rfl, hnew⟩
  | done stamps =>
    have hx : (m.doneStamps stamps).inflight.get? k = some x := h
    rw [get?_inflight_doneStamps] at hx
    exact .inl (filter_eq_some_iff.mp hx).1
  | abandon stamps =>
    have hx : (m.abandon stamps).inflight.get? k = some x := h
    rw [get?_inflight_abandon] at hx
    exact .inl (filter_eq_some_iff.mp hx).1
  | forgetOrphans stamps =>
    have hx : (m.forgetOrphans stamps).inflight.get? k = some x := h
    rw [inflight_forgetOrphans] at hx
    exact .inl hx
  | _ => exact .inl h

lemma Critical.reconcile_run {s : Critical} (hs : s ≠ .markReconcile)
    (h : m.reconcile = false) : (s.run m).2.reconcile = false := by
  cases s with
  | markReconcile => exact absurd rfl hs
  | track rows => exact (reconcile_track rows).trans h
  | done stamps => exact (reconcile_doneStamps stamps).trans h
  | abandon stamps => exact (reconcile_abandon stamps).trans h
  | forgetOrphans stamps => exact (reconcile_forgetOrphans stamps).trans h
  | clearReconcile => rfl
  | _ => exact h

lemma Critical.orphans_run {s : Critical} (hs : ∀ stamps, s ≠ .abandon stamps)
    (h : m.orphans.get? k = none) : (s.run m).2.orphans.get? k = none := by
  cases s with
  | abandon stamps => exact absurd rfl (hs stamps)
  | track rows =>
    show (m.track rows).orphans.get? k = none
    exact orphans_track_of_none rows h
  | done stamps =>
    show (m.doneStamps stamps).orphans.get? k = none
    rw [orphans_doneStamps]
    exact h
  | forgetOrphans stamps =>
    show (m.forgetOrphans stamps).orphans.get? k = none
    rw [get?_orphans_forgetOrphans, h]
    rfl
  | _ => exact h

lemma handedOver_critical (hσ : HandedOver σ) {s : Critical}
    (hG : Sanctioned cfg graceful t (.critical s) σ) :
    HandedOver (σ.afterCritical t.consumer s) := by
  refine ⟨hσ.current, ?_, ?_, ?_, hσ.settled, hσ.noRedelivery⟩
  · intro c k x hx
    by_cases hc : c = t.consumer
    · subst hc
      rw [memory_afterCritical_self] at hx
      rcases Critical.inflight_run hx with hold | ⟨rows, rfl, q, hq, rfl, rfl⟩
      · exact hσ.entries _ k x hold
      · exact hσ.polled _ q (hG.1 ▸ hq)
    · rw [memory_afterCritical_of_ne _ hc] at hx
      exact hσ.entries c k x hx
  · intro c q hq
    refine hσ.polled c q ?_
    by_cases hc : c = t.consumer
    · subst hc
      cases s with
      | track | markReconcile =>
        have hnil : q ∈ Function.update σ.polling t.consumer [] t.consumer := hq
        rw [Function.update_self] at hnil
        cases hnil
      | _ => exact hq
    · rw [polling_afterCritical_of_ne _ hc] at hq
      exact hq
  · intro c
    by_cases hc : c = t.consumer
    · subst hc
      rw [memory_afterCritical_self]
      obtain ⟨hre, hor⟩ := hσ.calm t.consumer
      refine ⟨Critical.reconcile_run ?_ hre, fun k => Critical.orphans_run ?_ (hor k)⟩
      · rintro rfl
        exact hG graceful_graceful
      · rintro stamps rfl
        exact hG graceful_graceful
    · rw [memory_afterCritical_of_ne _ hc]
      exact hσ.calm c

/-! ### Runs -/

lemma handedOver_call {σ' : Cluster} (hσ : HandedOver σ) (hK : σ.Known cfg) (hcov : Covered σ)
    (hown : s.IssuedBy (cfg t.consumer).queue t.consumer) {ch : Choice}
    (hok : graceful.act t (.call s) ch σ) (hG : Sanctioned cfg graceful t (.call s) σ)
    {r : (Action.call s).Reply} (hexec : exec t (.call s) ch σ = some (r, σ')) :
    HandedOver σ' := by
  rcases exec_call hexec with ⟨-, rfl, -⟩ | ⟨rep, w, hw, rfl, -⟩
  · exact hσ
  · cases s with
    | dispatch queue owner now limit => exact handedOver_dispatch hσ hK hw
    | acquirePartitions queue owner now ttl limit => exact handedOver_acquire hσ hK hw hok.2
    | releasePartitions queue owner ps =>
      obtain ⟨rfl, rfl⟩ := hown
      obtain ⟨halive, hpoll, hquiet⟩ := hG graceful_graceful
      exact handedOver_release hσ hK hcov halive hpoll hquiet hw
    | leave queue owner =>
      obtain ⟨rfl, rfl⟩ := hown
      exact handedOver_leave hσ hK hcov hG.1 hG.2 hok.2 hw
    | _ =>
      exact handedOver_world hσ hK hw (nofun) (nofun)
        (nofun)

lemma handedOver_env {e : EnvStep} {σ' : Cluster} (hσ : HandedOver σ) (hK : σ.Known cfg)
    (henv : envStep e σ = some σ') : HandedOver σ' := by
  cases e with
  | crash c =>
    cases henv
    refine ⟨hσ.current, hσ.entries, fun c' q hq => ?_, hσ.calm, hσ.settled, hσ.noRedelivery⟩
    by_cases hc : c' = c
    · subst hc
      rw [polling_crash_self] at hq
      cases hq
    · rw [polling_crash_of_ne hc] at hq
      exact hσ.polled c' q hq
  | client sched s =>
    simp only [envStep] at henv
    split at henv
    next hclient =>
      obtain ⟨⟨rep, w⟩, hw, rfl⟩ := map_eq_some_iff.mp henv
      refine handedOver_world hσ hK hw ?_ ?_ ?_
      · rintro _ _ _ _ _ rfl
        cases hclient
      · rintro _ _ _ rfl
        cases hclient
      · rintro _ _ rfl
        cases hclient
    · cases henv

lemma handedOver_initial : HandedOver initial where
  current k r hr := by cases hr
  entries c k x hx := by cases hx
  polled c q hq := by cases hq
  calm c := ⟨rfl, fun k => rfl⟩
  settled k r hr := by cases hr
  noRedelivery k := NoRedelivery.nil

/-- In every graceful run, no stamp is stale. -/
theorem handedOver_of_reachable {P : Pool Action Action.Reply Thread Cluster}
    (h : (system cfg).Reachable graceful initial P) : HandedOver P.state := by
  obtain ⟨-, hreach⟩ := counted_of_reachable (.inl graceful_graceful.reports) h
  refine ThreadSystem.Reachable.invariant handedOver_initial ?_ ?_ hreach
  · rintro t i ch σ r σ' hσ ⟨⟨⟨⟨hok, hcov⟩, hown⟩, hK⟩, hG⟩ hexec
    change exec t i ch σ = some (r, σ') at hexec
    cases i with
    | lock op =>
      obtain ⟨-, rfl⟩ := exec_lock hexec
      exact ⟨hσ.current, hσ.entries, hσ.polled, hσ.calm, hσ.settled, hσ.noRedelivery⟩
    | unlock =>
      cases exec_unlock hexec
      exact ⟨hσ.current, hσ.entries, hσ.polled, hσ.calm, hσ.settled, hσ.noRedelivery⟩
    | critical s =>
      obtain ⟨-, rfl⟩ := exec_critical hexec
      exact handedOver_critical hσ hG
    | call s => exact handedOver_call hσ hK hcov hown hok hG hexec
  · rintro e σ σ' hσ ⟨-, hK⟩ henv
    exact handedOver_env hσ hK henv

/-- In every graceful run, whenever a request is dispatched, each earlier dispatch of it has been
settled in between by a `Retry`, `Undispatch` or `Defer` that took effect.  (A request that was
acknowledged is gone; if its key is enqueued again, that is another request.) -/
theorem dispatch_after_settled {P : Pool Action Action.Reply Thread Cluster}
    (h : (system cfg).Reachable graceful Cluster.initial P) {pre post : List Event}
    {owner : String} {q : Request} (hlog : P.state.world.log = pre ++ .dispatched owner q :: post)
    {before between : List Event} {owner' : String} {q' : Request}
    (hpre : pre = before ++ .dispatched owner' q' :: between) (hkey : q'.key = q.key)
    (hsame : .enqueued q.key ∉ between) : .requeued q'.stamp ∈ between := by
  have hno := ((handedOver_of_reachable h).noRedelivery q.key).of_aboutKey
  rcases hno pre owner q post hlog rfl before owner' q' between hpre hkey hsame with hr | hn
  · exact hr
  · cases hn

def gracefulStep (P : Pool Action Action.Reply Thread Cluster) :
    Label Thread Choice Op EnvStep → Bool
  | .start _ o => match o with
    | .abandon _ => false
    | _ => true
  | .act t ch => match P.prog t with
    | some (.act i _) => graceful.act t i ch P.state
    | _ => true
  | _ => true

lemma allowed_of_gracefulStep (P : Pool Action Action.Reply Thread Cluster)
    (l : Label Thread Choice Op EnvStep) (h : gracefulStep P l = true) :
    ThreadSystem.Allowed graceful P l := by
  cases l with
  | start t o =>
    rintro stamps rfl
    cases h
  | act t ch =>
    intro i k hprog
    simp only [gracefulStep, hprog, decide_eq_true_eq] at h
    exact h
  | _ => exact trivial

/-- The first dispatcher takes all partitions, dispatches a request and retries it; then a second
dispatcher joins, takes over half of the partitions and dispatches the request. -/
def handoffRun : List (Label Thread Choice Op EnvStep) :=
  let t₀ : Thread := ⟨⟨"dispatcher-0", first_ne⟩, 0⟩
  let t₁ : Thread := ⟨⟨"dispatcher-1", second_ne⟩, 0⟩
  .env (.client Sched.plain
      (.enqueue 0 [⟨⟨"r1", "t1"⟩, "q", 0, 0, 0, 600, "", [], false, 0⟩])) ::
    alone t₀ (.rebalance 0) ++ alone t₀ (.poll 0 10) ++
    alone t₀ (.retry ⟨⟨"r1", "t1"⟩, 1⟩ 0 "") ++ alone t₁ (.rebalance 0) ++
    alone t₀ (.rebalance 0) ++ alone t₁ (.rebalance 0) ++ alone t₁ (.poll 0 10)

/-- In this run, the retry lies between the two dispatches. -/
theorem handoffRun_settled :
    let P := (system queueConfig).run (ThreadSystem.idle initial) handoffRun
    let log := P.state.world.log
    let q (epoch attempt : ℤ) : Request :=
      ⟨⟨"r1", "t1"⟩, "q", partitionOf "r1", epoch, attempt, 600, "", [], false, 0⟩
    log = log.take 99 ++ [.dispatched "dispatcher-1" (q 2 2)] ∧
      .requeued (q 1 1).stamp ∈ (log.take 99).drop 66 := by
  intro P log q
  have hreach : (system queueConfig).Reachable graceful initial P :=
    ThreadSystem.reachable_run_of_passes _ allowed_of_gracefulStep (by decide +kernel)
  obtain ⟨hlog, hpre, hsame⟩ : log = log.take 99 ++ [.dispatched "dispatcher-1" (q 2 2)] ∧
      log.take 99 = log.take 65 ++ .dispatched "dispatcher-0" (q 1 1) :: (log.take 99).drop 66 ∧
      .enqueued (q 2 2).key ∉ (log.take 99).drop 66 := by
    decide +kernel
  exact ⟨hlog, dispatch_after_settled hreach hlog hpre rfl hsame⟩

end LlmdAsync.SqlQueue
