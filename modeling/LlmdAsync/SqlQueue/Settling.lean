import LlmdAsync.SqlQueue.Rebalance

/-!
# The first round of rebalancing

The consumers of a queue call `Rebalance` one after the other, without store errors and within one
lease TTL.  A call that runs alone is a run of the system of `Cluster`.

The first call of a consumer makes it a member and secures its leases for the rest of the time.
Before that, a consumer may find too few members and take too much, or lose a lease that lapses
before its turn.  Once every consumer has had a call, no lease lapses any more and everybody counts
the same members.
-/

namespace LlmdAsync.SqlQueue

open List Function Table Database Cluster ThreadSystem

/-! ### Calls that run alone -/

/-- One call of `Rebalance`. -/
structure RebalanceCall where
  thread : Thread
  now : Time
  sched : Sched

/-- The consumer that makes the call. -/
def RebalanceCall.consumer (call : RebalanceCall) : Owner := call.thread.consumer

namespace Cluster

/-- The cluster after the call has run from beginning to end, with no one else at work and without
store errors. -/
def rebalance (cfg : Owner → Config) (σ : Cluster) (call : RebalanceCall) : Option Cluster :=
  ((SqlQueue.rebalance (cfg call.consumer) call.consumer call.now).alone
    (fun i => Cluster.exec call.thread i ⟨.ok, call.sched⟩) σ).map Prod.snd

/-- Calls one after the other. -/
def rebalances (cfg : Owner → Config) (σ : Cluster) (calls : List RebalanceCall) :
    Option Cluster :=
  calls.foldlM (Cluster.rebalance cfg) σ

variable {cfg : Owner → Config} {σ : Cluster} {call : RebalanceCall}

lemma rebalances_cons {calls : List RebalanceCall} :
    σ.rebalances cfg (call :: calls) = (σ.rebalance cfg call).bind (·.rebalances cfg calls) := rfl

lemma rebalances_append {calls calls' : List RebalanceCall} :
    σ.rebalances cfg (calls ++ calls') = (σ.rebalances cfg calls).bind (·.rebalances cfg calls'):=
  foldlM_append

lemma steps_of_rebalance {σ' : Cluster} (h : σ.rebalance cfg call = some σ')
    (halive : σ.dead call.consumer = false) :
    Relation.ReflTransGen ((system cfg).Step .free) (idle σ) (idle σ'):= by
  obtain ⟨⟨ok, σ₁⟩, hrun, rfl⟩ := Option.map_eq_some_iff.mp h
  have hcode : ((Op.rebalance call.now).code (cfg call.consumer) call.consumer).alone
      (fun i => exec call.thread i ⟨.ok, call.sched⟩) σ = some ((), σ₁) := by
    show ((SqlQueue.rebalance _ _ _) >>= fun _ => pure ()).alone _ σ = _
    rw [Prog.alone_bind, hrun]
    rfl
  have hstart : (system cfg).next (idle σ) (.start call.thread (.rebalance call.now)) =
      some ⟨σ, update (fun _ => none) call.thread
        (some ((Op.rebalance call.now).code (cfg call.consumer) call.consumer))⟩ := by
    have hstarts : (system cfg).starts call.thread (.rebalance call.now) σ = true := by
      simp only [system, Op.stamps, all_nil, Bool.and_true, Bool.not_eq_true']
      exact halive
    simp only [ThreadSystem.next, idle, hstarts, if_pos]
    rfl
  have hrest := (system cfg).steps_of_alone call.thread ⟨.ok, call.sched⟩ hcode
    (update_self call.thread _ fun _ => none)
  refine .head ⟨.start call.thread (.rebalance call.now), trivial, hstart⟩
    (hrest.tail ⟨.finish call.thread, trivial, ?_⟩)
  rw [update_idem]
  simp only [ThreadSystem.next, update_self, update_idem]
  rw [idle, update_eq_self_iff.mpr rfl]

/-- What the consumer sees of the cluster while it runs alone. -/
def solo (σ : Cluster) (c : Owner) : Solo := ⟨σ.memory c, σ.world.db⟩

/-- Nothing has happened to the other consumers, and no mutex has changed hands. -/
structure Frame (c : Owner) (σ σ' : Cluster) : Prop where
  memory : ∀ c', c' ≠ c → σ'.memory c' = σ.memory c'
  cycle : σ'.cycle = σ.cycle

lemma exec_of_solo {t : Thread} {sched : Sched} (i : Action) (σ : Cluster) (r : i.Reply) (x : Solo)
    (h : Solo.exec sched i (σ.solo t.consumer) = some (r, x)) :
    ∃ σ', exec t i ⟨.ok, sched⟩ σ = some (r, σ') ∧ σ'.solo t.consumer = x ∧
      Frame t.consumer σ σ' := by
  cases i with
  | lock | unlock => cases h
  | critical s =>
    cases h
    refine ⟨σ.afterCritical t.consumer s, rfl, ?_, ?_, rfl⟩
    · rw [solo, memory_afterCritical_self]
      rfl
    · exact fun c' hc' => memory_afterCritical_of_ne s hc'
  | call s =>
    obtain ⟨⟨rep, db'⟩, hdb, heq⟩ := Option.map_eq_some_iff.mp h
    cases heq
    let w : World := ⟨db', σ.world.log ++ σ.world.db.events sched s⟩
    have hw : σ.world.exec sched s = some (rep, w) := World.exec_eq_some.mpr ⟨hdb, rfl⟩
    refine ⟨σ.afterCall t.consumer s rep w, ?_, rfl, fun _ _ => rfl, rfl⟩
    show (σ.world.exec sched s).map _ = _
    rw [hw]
    rfl

lemma rebalance_of_solo (hfree : σ.cycle call.consumer = none) {Q : Solo → Prop}
    (h : (rebalanceBody (cfg call.consumer) call.consumer call.now).Ends (Solo.exec call.sched)
      (fun _ => Q) (σ.solo call.consumer)) :
    ∃ σ', σ.rebalance cfg call = some σ' ∧ Q (σ'.solo call.consumer) ∧ Frame call.consumer σ σ':= by
  let σ₁ := σ.setCycle call.consumer (some (call.thread.num, .rebalance))
  have hlock : exec call.thread (.lock .rebalance) ⟨.ok, call.sched⟩ σ = some ((), σ₁) := by
    simp only [exec]
    rw [show σ.cycle call.thread.consumer = none from hfree]
    rfl
  have hbody := Prog.Ends.lift (fun σ : Cluster => σ.solo call.consumer)
    (fun σ => ⟨fun _ _ => rfl, rfl⟩)
    (fun σ σ₁ σ₂ h₁ h₂ => ⟨fun c' hc' => (h₂.memory c' hc').trans (h₁.memory c' hc'),
      h₂.cycle.trans h₁.cycle⟩) exec_of_solo (w := σ₁) h
  have hends : (SqlQueue.rebalance (cfg call.consumer) call.consumer call.now).Ends
      (fun i => exec call.thread i ⟨.ok, call.sched⟩)
      (fun _ σ' => Q (σ'.solo call.consumer) ∧ Frame call.consumer σ σ') σ := by
    refine .step hlock (.bind (hbody.weaken fun ok σ₂ h₂ => ?_))
    obtain ⟨hQ, hframe⟩ := h₂
    refine .step rfl (.pure ⟨hQ, hframe.memory, ?_⟩)
    show update σ₂.cycle call.consumer none = σ.cycle
    rw [hframe.cycle]
    show update (update σ.cycle call.consumer _) call.consumer none = σ.cycle
    rw [update_idem]
    exact update_eq_self_iff.mpr hfree.symm
  obtain ⟨ok, σ', hrun, hQ, hframe⟩ := hends
  refine ⟨σ', ?_, hQ, hframe⟩
  rw [rebalance, hrun]
  rfl

end Cluster

/-! ### Members -/

namespace Database

variable {db : Database} {queue : String} {cfg : Config} {c : Owner} {now : Time}

lemma mem_enrolled {d : DispatcherRow} :
    d ∈ (db.enrolled cfg c now).dispatchers ↔
      (d = ⟨cfg.queue, c.name, Time.unixMilli (now + cfg.leaseTTL)⟩ ∨
        d ∈ db.dispatchers ∧ d.key ≠ (cfg.queue, c.name)) ∧
        ¬(d.queue = cfg.queue ∧ d.expiresMs < now.unixMilli) := by
  let new : DispatcherRow := ⟨cfg.queue, c.name, Time.unixMilli (now + cfg.leaseTTL)⟩
  let old := db.dispatchers.filter fun d => d.key ≠ (cfg.queue, c.name)
  have hfree : ¬new.key ∈ old.rows.map DispatcherRow.key := by
    intro h
    obtain ⟨d', hd', hkey⟩ := List.mem_map.mp h
    have hne := (Table.mem_filter.mp hd').2
    rw [decide_eq_true_eq] at hne
    exact hne hkey
  have hjoin : d ∈ (db.joinMembers cfg.queue c.name
      (Time.unixMilli (now + cfg.leaseTTL))).dispatchers ↔ d ∈ old ∨ d = new := by
    show d ∈ old.insertNew new ↔ _
    rw [Table.insertNew, dif_neg hfree, Table.mem_mk, List.mem_append, List.mem_singleton]
    rfl
  rw [enrolled, expireMembers, Table.mem_filter, hjoin, Table.mem_filter, decide_eq_true_eq,
    Bool.not_eq_true', Bool.and_eq_false_iff, decide_eq_false_iff_not, decide_eq_false_iff_not,
    or_comm, not_and_or]

lemma countMembers_eq {cs : List Owner} (hnd : cs.Nodup)
    (hsub : ∀ d ∈ db.dispatchers, d.queue = queue → ∃ c ∈ cs, d.owner = c.name)
    (hall : ∀ c ∈ cs, ∃ d ∈ db.dispatchers, d.queue = queue ∧ d.owner = c.name) :
    db.countMembers queue = cs.length := by
  let ds := db.dispatchers.rows.filter fun d => d.queue = queue
  have hds : ∀ d, d ∈ ds ↔ d ∈ db.dispatchers ∧ d.queue = queue := by
    intro d
    rw [List.mem_filter, decide_eq_true_eq]
    rfl
  have hnames : (ds.map DispatcherRow.owner).Nodup := by
    have hkeys : (ds.map DispatcherRow.key).Nodup :=
      db.dispatchers.nodup.sublist (filter_sublist.map _)
    refine List.Nodup.of_map (fun name => (queue, name)) ?_
    rw [map_map]
    convert hkeys using 1
    refine map_congr_left fun d hd => ?_
    show (queue, d.owner) = (d.queue, d.owner)
    rw [((hds d).mp hd).2]
  have hnames' : (cs.map Owner.name).Nodup := hnd.map fun _ _ => Owner.eq_of_name_eq
  have hperm : (ds.map DispatcherRow.owner).Perm (cs.map Owner.name) := by
    refine (List.perm_ext_iff_of_nodup hnames hnames').mpr fun name => ?_
    rw [List.mem_map, List.mem_map]
    constructor
    · rintro ⟨d, hd, rfl⟩
      obtain ⟨hmem, hq⟩ := (hds d).mp hd
      obtain ⟨c, hc, ho⟩ := hsub d hmem hq
      exact ⟨c, hc, ho.symm⟩
    · rintro ⟨c, hc, rfl⟩
      obtain ⟨d, hd, hq, ho⟩ := hall c hc
      exact ⟨d, (hds d).mpr ⟨hd, hq⟩, ho⟩
  have hlen := hperm.length_eq
  rw [length_map, length_map] at hlen
  rw [countMembers, countP_eq_length_filter]
  exact hlen

end Database

/-! ### The first round -/

/-- The consumers `cs` share a queue, and everything happens from `start` to `limit`, which is
within one lease TTL of each of them. -/
structure Setting (cfg : Owner → Config) (queue : String) (cs : List Owner) (start limit : Time) :
    Prop where
  nodup : cs.Nodup
  queue_eq : ∀ c ∈ cs, (cfg c).queue = queue
  limit_le : ∀ c ∈ cs, limit ≤ start + (cfg c).leaseTTL

/-- The call is made by one of the consumers, in time, while nobody holds a partition locked. -/
structure RebalanceCall.Timely (cs : List Owner) (start limit : Time) (call : RebalanceCall) :
    Prop where
  mem : call.consumer ∈ cs
  start_le : start ≤ call.now
  le_limit : call.now ≤ limit
  unlocked : ∀ pk, call.sched.lockedPartition pk = false

/-- The partitions of the queue have been created. -/
def Database.Created (db : Database) (queue : String) : Prop :=
  ∀ p ∈ partitionIds, ∃ row, db.partitions.get? ⟨queue, p⟩ = some row

/-- The consumers are running with nothing in flight.  The partitions are unowned, lapsed or owned
by one of them, and the members are the consumers or expired.  A consumer that believes that the
partitions have been created is right. -/
structure AtRest (queue : String) (cs : List Owner) (start : Time) (σ : Cluster) : Prop where
  free : ∀ c ∈ cs, σ.cycle c = none
  running : ∀ c ∈ cs, (σ.memory c).stopping = false
  idle : ∀ c ∈ cs, ∀ p st, (σ.memory c).leases.get? p = some st → st.inflight = 0
  created : ∀ c ∈ cs, (σ.memory c).seeded = true → σ.world.db.Created queue
  inside : σ.world.db.Inside queue
  rows : ∀ pk row, σ.world.db.partitions.get? pk = some row → pk.queue = queue →
    row.owner = "" ∨ row.leaseExpiresMs < start.unixMilli ∨ ∃ c ∈ cs, row.owner = c.name
  members : ∀ d ∈ σ.world.db.dispatchers, d.queue = queue →
    d.expiresMs < start.unixMilli ∨ ∃ c ∈ cs, d.owner = c.name

/-- Those that have had a call, `done`, are members, own nothing that drains, and have leases and
membership for the rest of the time. -/
structure Settling (queue : String) (cs : List Owner) (start limit : Time) (done : List Owner)
    (σ : Cluster) : Prop extends AtRest queue cs start σ where
  seeded : ∀ c ∈ done, (σ.memory c).seeded = true
  secure : ∀ c ∈ done, ∀ pk row, σ.world.db.partitions.get? pk = some row → pk.queue = queue →
    row.owner = c.name → row.draining = false ∧ limit.unixMilli ≤ row.leaseExpiresMs
  enrolled : ∀ c ∈ done, ∃ d ∈ σ.world.db.dispatchers, d.queue = queue ∧ d.owner = c.name ∧
    limit.unixMilli ≤ d.expiresMs

section Seeded

variable {queue : String} {cfg : Config} {x : Solo}

lemma mem_freshPartitions {row : PartitionRow} :
    row ∈ freshPartitions queue ↔
      ∃ p ∈ partitionIds, row = ⟨⟨queue, p⟩, "", 0, false, 0⟩ := by
  simp only [Database.freshPartitions, List.mem_map, List.bind_eq_flatMap, List.pure_def,
    List.mem_flatMap, List.mem_range, List.mem_singleton, mem_partitionIds]
  constructor
  · rintro ⟨p, ⟨i, hi, rfl⟩, rfl⟩
    exact ⟨i, ⟨Int.natCast_nonneg i, Int.ofNat_lt.mpr hi⟩, rfl⟩
  · rintro ⟨p, ⟨h₀, h₁⟩, rfl⟩
    exact ⟨p, ⟨p.toNat, by omega, by omega⟩, rfl⟩

lemma get?_seededDb {pk : PartitionKey} {row : PartitionRow}
    (h : (x.seededDb cfg).partitions.get? pk = some row) :
    x.db.partitions.get? pk = some row ∨
      row.owner = "" ∧ row.key.partition ∈ partitionIds := by
  unfold Solo.seededDb at h
  split at h
  · exact .inl h
  · rw [get?_ensurePartitions] at h
    rcases get?_insertMissing_cases h with hold | ⟨-, hnew, -⟩
    · exact .inl hold
    · obtain ⟨p, hp, rfl⟩ := mem_freshPartitions.mp hnew
      exact .inr ⟨rfl, hp⟩

lemma inside_seededDb (h : x.db.Inside cfg.queue) : (x.seededDb cfg).Inside cfg.queue := by
  intro row hrow hq
  rcases get?_seededDb (mem_iff_get?.mp hrow) with hold | ⟨-, hpart⟩
  · exact h row (mem_of_get? hold) hq
  · exact hpart

lemma created_seededDb (h : x.memory.seeded = true → x.db.Created cfg.queue) :
    (x.seededDb cfg).Created cfg.queue := by
  unfold Solo.seededDb
  split
  next hs =>
    exact h hs
  · intro p hp
    have hmem : (⟨⟨cfg.queue, p⟩, "", 0, false, 0⟩ : PartitionRow) ∈
        freshPartitions cfg.queue := mem_freshPartitions.mpr ⟨p, hp, rfl⟩
    obtain ⟨row, hrow⟩ := exists_get?_insertMissing (t := x.db.partitions) hmem
    exact ⟨row, (get?_ensurePartitions ..).trans hrow⟩

end Seeded

section FirstRound

variable {cfg : Owner → Config} {queue : String} {cs done : List Owner} {start limit : Time}
  {σ : Cluster}

variable {c : Owner} {now : Time}

lemma limit_le_expires (hset : Setting cfg queue cs start limit) (hc : c ∈ cs)
    (hnow : start ≤ now) :
    limit.unixMilli ≤ Time.unixMilli (now + (cfg c).leaseTTL) :=
  Time.unixMilli_mono ((hset.limit_le c hc).trans (by gcongr))

lemma exists_mem_enrolled (hset : Setting cfg queue cs start limit) (hc : c ∈ cs)
    (hstart : start ≤ now) (hle : now ≤ limit) {db : Database} {c' : Owner}
    (h : c' ≠ c → ∃ d ∈ db.dispatchers, d.queue = queue ∧ d.owner = c'.name ∧
      limit.unixMilli ≤ d.expiresMs) :
    ∃ d ∈ (db.enrolled (cfg c) c now).dispatchers, d.queue = queue ∧ d.owner = c'.name ∧
      limit.unixMilli ≤ d.expiresMs := by
  have hlimit := limit_le_expires hset hc hstart
  have hms := Time.unixMilli_mono hle
  by_cases heq : c' = c
  · subst heq
    refine ⟨_, mem_enrolled.mpr ⟨.inl rfl, fun hlt => ?_⟩, hset.queue_eq _ hc, rfl,
      hlimit⟩
    exact absurd hlt.2 (not_lt_of_ge (hms.trans hlimit))
  · obtain ⟨d, hd, hdq, hdo, hde⟩ := h heq
    refine ⟨d, mem_enrolled.mpr ⟨.inr ⟨hd, fun hkey => heq ?_⟩, fun hlt => ?_⟩, hdq,
      hdo, hde⟩
    · exact Owner.eq_of_name_eq (hdo.symm.trans (congrArg Prod.snd hkey))
    · exact absurd hlt.2 (not_lt_of_ge (hms.trans hde))

lemma rows_step (hq : (cfg c).queue = queue) {x y : Solo}
    (hpart : x.db.partitions = ((σ.solo c).seededDb (cfg c)).partitions)
    (hreb : Rebalanced (cfg c) c now x y) {pk : PartitionKey} {row : PartitionRow}
    (hrow : y.db.partitions.get? pk = some row) (hpk : pk.queue = queue) :
    row.owner = c.name ∨ row.owner = "" ∨
      σ.world.db.partitions.get? pk = some row ∧ row.owner ≠ c.name := by
  obtain ⟨row₀, hrow₀, ⟨rfl, hmine⟩ | ho⟩ := hreb.cases hrow
  · rw [hpart] at hrow₀
    rcases get?_seededDb hrow₀ with hold | ⟨ho, -⟩
    · refine .inr (.inr ⟨hold, fun ho => ?_⟩)
      rw [mine_iff.mpr ⟨by rw [key_of_get? hrow₀, hpk, hq], ho⟩] at hmine
      cases hmine
    · exact .inr (.inl ho)
  · exact ho.imp_right .inl

lemma Settling.step (hset : Setting cfg queue cs start limit)
    (h : Settling queue cs start limit done σ) {call : RebalanceCall}
    (hcall : call.Timely cs start limit) {σ' : Cluster} {x : Solo}
    (hpart : x.db.partitions = ((σ.solo call.consumer).seededDb (cfg call.consumer)).partitions)
    (hdisp : x.db.dispatchers = σ.world.db.dispatchers) (hstop : x.memory.stopping = false)
    (hseed : x.memory.seeded = true)
    (hreb : Rebalanced (cfg call.consumer) call.consumer call.now x (σ'.solo call.consumer))
    (hframe : Cluster.Frame call.consumer σ σ') :
    Settling queue cs start limit (call.consumer :: done) σ' := by
  obtain ⟨hc, hstart, hle, -⟩ := hcall
  have hq := hset.queue_eq _ hc
  have hlimit := limit_le_expires hset hc hstart
  have hmem : ∀ c', c' = call.consumer ∨ σ'.memory c' = σ.memory c' := fun c' =>
    (eq_or_ne c' call.consumer).imp_right (hframe.memory c')
  have hin : ((σ.solo call.consumer).seededDb (cfg call.consumer)).Inside
      (cfg call.consumer).queue := inside_seededDb (hq.symm ▸ h.inside)
  have hcreated : σ'.world.db.Created queue := by
    intro p hp
    have hx : ((σ.solo call.consumer).seededDb (cfg call.consumer)).Created queue :=
      hq ▸ created_seededDb fun hs => hq.symm ▸ h.created _ hc hs
    rw [Database.Created, ← hpart] at hx
    obtain ⟨row, hrow⟩ := hx p hp
    exact hreb.exists_get? hrow
  refine ⟨⟨?_, ?_, ?_, fun _ _ _ => hcreated, ?_, ?_, ?_⟩, ?_, ?_, ?_⟩
  · intro c' hc'
    rw [hframe.cycle]
    exact h.free c' hc'
  · intro c' hc'
    rcases hmem c' with rfl | hsame
    · exact hreb.stopping.trans hstop
    · rw [hsame]
      exact h.running c' hc'
  · intro c' hc'
    rcases hmem c' with rfl | hsame
    · exact hreb.idle
    · rw [hsame]
      exact h.idle c' hc'
  · intro row hrow hrq
    obtain ⟨row₀, hrow₀, -⟩ := hreb.cases (mem_iff_get?.mp hrow)
    rw [hpart] at hrow₀
    have hkey := key_of_get? hrow₀
    have hp := hin row₀ (mem_of_get? hrow₀) (by rw [hkey, hrq, hq])
    rwa [hkey] at hp
  · intro pk row hrow hpk
    rcases rows_step hq hpart hreb hrow hpk with ho | ho | ⟨hold, -⟩
    · exact .inr (.inr ⟨_, hc, ho⟩)
    · exact .inl ho
    · exact h.rows pk row hold hpk
  · intro d hd hdq
    have hd : d ∈ (x.db.enrolled (cfg call.consumer) call.consumer call.now).dispatchers := by
      rw [← hreb.dispatchers]
      exact hd
    rcases (mem_enrolled.mp hd).1 with rfl | ⟨hold, -⟩
    · exact .inr ⟨_, hc, rfl⟩
    · rw [hdisp] at hold
      exact h.members d hold hdq
  · intro c' hc'
    rcases hmem c' with rfl | hsame
    · exact hreb.seeded.trans hseed
    · rcases mem_cons.mp hc' with rfl | hdone
      · exact hreb.seeded.trans hseed
      · rw [hsame]
        exact h.seeded c' hdone
  · intro c' hc' pk row hrow hpk ho
    by_cases heq : c' = call.consumer
    · subst heq
      have hmine : mine (cfg call.consumer) call.consumer row = true :=
        mine_iff.mpr ⟨by rw [key_of_get? hrow, hpk, hq], ho⟩
      obtain ⟨hd, he⟩ := hreb.held pk row hrow hmine
      rw [he]
      exact ⟨hd, hlimit⟩
    · have hdone : c' ∈ done := (mem_cons.mp hc').resolve_left heq
      rcases rows_step hq hpart hreb hrow hpk with ho' | ho' | ⟨hold, -⟩
      · exact absurd (Owner.eq_of_name_eq (ho.symm.trans ho')) heq
      · exact absurd (ho.symm.trans ho') c'.name_ne
      · exact h.secure c' hdone pk row hold hpk ho
  · intro c' hc'
    have hmem : ∃ d ∈ (x.db.enrolled (cfg call.consumer) call.consumer call.now).dispatchers,
        d.queue = queue ∧ d.owner = c'.name ∧ limit.unixMilli ≤ d.expiresMs := by
      refine exists_mem_enrolled hset hc hstart hle fun heq => ?_
      rw [hdisp]
      exact h.enrolled c' ((mem_cons.mp hc').resolve_left heq)
    rw [← hreb.dispatchers] at hmem
    exact hmem

lemma Settling.rebalance (hset : Setting cfg queue cs start limit)
    (h : Settling queue cs start limit done σ) {call : RebalanceCall}
    (hcall : call.Timely cs start limit) :
    ∃ σ', σ.rebalance cfg call = some σ' ∧
      Settling queue cs start limit (call.consumer :: done) σ' ∧ (call.consumer ∈ done →
        Rebalanced (cfg call.consumer) call.consumer call.now (σ.solo call.consumer)
          (σ'.solo call.consumer)) := by
  have hc := hcall.mem
  have hq := hset.queue_eq _ hc
  have httl : 0 ≤ (cfg call.consumer).leaseTTL := by
    have hle := (hcall.start_le.trans hcall.le_limit).trans (hset.limit_le _ hc)
    exact (le_add_iff_nonneg_right start).mp hle
  have hin : ((σ.solo call.consumer).seededDb (cfg call.consumer)).Inside
      (cfg call.consumer).queue := inside_seededDb (hq.symm ▸ h.inside)
  obtain ⟨σ', hrun, ⟨x, hpart, hdisp, hstop, hseed, hreb⟩, hframe⟩ :=
    rebalance_of_solo (h.free _ hc) (ends_rebalanceBody (x := σ.solo call.consumer)
      (h.running _ hc) (h.idle _ hc) hin httl hcall.unlocked call.now)
  refine ⟨σ', hrun, h.step hset hcall hpart hdisp hstop hseed hreb hframe, fun hdone => ?_⟩
  have hseed₀ := h.seeded _ hdone
  refine hreb.congr ((h.running _ hc).trans hstop.symm) (hseed₀.trans hseed.symm) ?_ hdisp.symm
  rw [hpart, Solo.seededDb]
  exact (if_pos hseed₀ ▸ rfl)

lemma Settling.mono {done' : List Owner} (h : Settling queue cs start limit done σ)
    (hsub : ∀ c ∈ done', c ∈ done) : Settling queue cs start limit done' σ :=
  ⟨h.toAtRest, fun c hc => h.seeded c (hsub c hc), fun c hc => h.secure c (hsub c hc),
    fun c hc => h.enrolled c (hsub c hc)⟩

lemma Settling.rebalances (hset : Setting cfg queue cs start limit) {calls : List RebalanceCall}
    (hcalls : ∀ call ∈ calls, call.Timely cs start limit)
    (h : Settling queue cs start limit done σ) :
    ∃ σ', σ.rebalances cfg calls = some σ' ∧
      Settling queue cs start limit (calls.map RebalanceCall.consumer ++ done) σ' := by
  induction calls generalizing σ done with
  | nil => exact ⟨σ, rfl, h⟩
  | cons call calls ih =>
    obtain ⟨hcall, hrest⟩ := forall_mem_cons.mp hcalls
    obtain ⟨σ₁, hrun₁, h₁, -⟩ := h.rebalance hset hcall
    obtain ⟨σ', hrun, h'⟩ := ih hrest h₁
    refine ⟨σ', ?_, h'.mono fun c hc => ?_⟩
    · rw [rebalances_cons, hrun₁, Option.bind_some, hrun]
    · rw [map_cons, cons_append, mem_cons, mem_append] at hc
      rw [mem_append, mem_cons]
      exact or_left_comm.mp hc

end FirstRound

end LlmdAsync.SqlQueue
