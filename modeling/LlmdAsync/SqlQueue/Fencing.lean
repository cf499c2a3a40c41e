import LlmdAsync.SqlQueue.Effects
import LlmdAsync.SqlQueue.Leases

/-!
# Fencing of stale dispatches

Two counters fence a dispatcher that lost its work.  The epoch of a partition grows with every
acquisition, so an epoch has one acquirer and only that acquirer stamps rows with it.  The attempt
sequence grows with every dispatch, so the attempt on a stamped row is the largest one ever drawn
for its key.  An outcome write has to name that attempt and to hold the partition.

The invariant is split in the same way: `LeaseInvariant` speaks about one partition,
`RowInvariant` about one key.
-/

namespace LlmdAsync.SqlQueue

open List Option Database World

/-! ### Reading the log -/

/-- The epoch of a partition, zero before it is created. -/
def Database.epochOf (db : Database) (pk : PartitionKey) : ℤ :=
  ((db.partitions.get? pk).map PartitionRow.epoch).getD 0

/-- Who acquired epoch `e` of the partition, if the event tells. -/
def Event.acquirer? (pk : PartitionKey) (e : ℤ) : Event → Option String
  | .acquired queue owner lease =>
    if queue = pk.queue ∧ lease.partition = pk.partition ∧ lease.epoch = e then some owner else none
  | _ => none

/-- The owners whose `AcquirePartitions` created epoch `e` of the partition. -/
def acquirers (log : List Event) (pk : PartitionKey) (e : ℤ) : List String :=
  log.filterMap (Event.acquirer? pk e)

/-- The attempt that the event drew for the key, if any. -/
def Event.attempt? (k : Key) : Event → Option ℤ
  | .dispatched _ request => if request.key = k then some request.attempt else none
  | _ => none

/-- The attempts `Dispatch` ever drew for the key. -/
def drawnAttempts (log : List Event) (k : Key) : List ℤ := log.filterMap (Event.attempt? k)

variable {pk : PartitionKey} {p : PartitionRow} {sched : Sched} {k : Key}

@[simp] lemma acquirers_nil (pk : PartitionKey) (e : ℤ) : acquirers [] pk e = [] := rfl

@[simp] lemma acquirers_append (l l' : List Event) (pk : PartitionKey) (e : ℤ) :
    acquirers (l ++ l') pk e = acquirers l pk e ++ acquirers l' pk e := filterMap_append ..

@[simp] lemma drawnAttempts_append (l l' : List Event) (k : Key) :
    drawnAttempts (l ++ l') k = drawnAttempts l k ++ drawnAttempts l' k := filterMap_append ..

lemma acquirers_eq_aboutPartition (log : List Event) (pk : PartitionKey) (e : ℤ) :
    acquirers log pk e = acquirers (aboutPartition pk log) pk e := by
  unfold acquirers aboutPartition
  rw [filterMap_filter]
  refine filterMap_congr fun ev _ => ?_
  split
  · rfl
  next hne =>
    rw [decide_eq_true_eq] at hne
    cases ev with
    | acquired queue owner lease =>
      refine if_neg fun h => hne ?_
      rw [Event.partition?, h.1, h.2.1]
    | _ => rfl

lemma drawnAttempts_eq_aboutKey (log : List Event) (k : Key) :
    drawnAttempts log k = drawnAttempts (aboutKey k log) k := by
  unfold drawnAttempts aboutKey
  rw [filterMap_filter]
  refine filterMap_congr fun ev _ => ?_
  split
  · rfl
  next hne =>
    rw [decide_eq_true_eq] at hne
    cases ev with
    | dispatched owner request =>
      refine if_neg fun h => hne ?_
      rw [Event.key?, h]
    | _ => rfl

/-! ### Partitions -/

/-- What the log says about the owners of one partition. -/
structure LeaseInvariant (w : World) (pk : PartitionKey) : Prop where
  /-- Epochs start at zero. -/
  epoch_nonneg : 0 ≤ w.db.epochOf pk
  /-- Every epoch up to the current one was created once, and no other. -/
  length_acquirers : ∀ e, (acquirers w.log pk e).length =
    if 1 ≤ e ∧ e ≤ w.db.epochOf pk then 1 else 0
  /-- The owner is the one that created the current epoch. -/
  holder : ∀ p, w.db.partitions.get? pk = some p → p.owner ≠ "" →
    p.owner ∈ acquirers w.log pk p.epoch

lemma Database.epochOf_of_some {db : Database}
    (h : db.partitions.get? pk = some p) : db.epochOf pk = p.epoch := by
  simp [epochOf, h]

variable {w w' : World}

lemma LeaseInvariant.of_same_epoch (hw : LeaseInvariant w pk)
    (hlog : ∀ e, acquirers w'.log pk e = acquirers w.log pk e)
    (hepoch : w'.db.epochOf pk = w.db.epochOf pk)
    (howner : ∀ p', w'.db.partitions.get? pk = some p' → p'.owner ≠ "" →
      ∃ p, w.db.partitions.get? pk = some p ∧ p.owner = p'.owner ∧ p.epoch = p'.epoch) :
    LeaseInvariant w' pk := by
  refine ⟨?_, ?_, ?_⟩
  · rw [hepoch]
    exact hw.epoch_nonneg
  · intro e
    rw [hlog, hepoch]
    exact hw.length_acquirers e
  · intro p' hp' hne
    obtain ⟨p, hp, ho, he⟩ := howner p' hp' hne
    rw [hlog, ← ho, ← he]
    exact hw.holder p hp (ho.symm ▸ hne)

lemma LeaseInvariant.of_acquire (hw : LeaseInvariant w pk) {owner : String} {expires : ℤ}
    (hp : w.db.partitions.get? pk = some p)
    (hp' : w'.db.partitions.get? pk = some (takeOver owner expires p))
    (hlog : ∀ e, acquirers w'.log pk e =
      acquirers w.log pk e ++ if p.epoch + 1 = e then [owner] else []) :
    LeaseInvariant w' pk := by
  have hep : w.db.epochOf pk = p.epoch := epochOf_of_some hp
  have hep' : w'.db.epochOf pk = p.epoch + 1 := epochOf_of_some hp'
  have hnonneg := hw.epoch_nonneg
  refine ⟨by omega, ?_, ?_⟩
  · intro e
    rw [hlog, length_append, hw.length_acquirers, hep, hep']
    by_cases he : p.epoch + 1 = e
    · rw [if_pos he, if_neg (by omega), if_pos (by omega)]
      rfl
    · rw [if_neg he]
      by_cases hle : 1 ≤ e ∧ e ≤ p.epoch
      · rw [if_pos hle, if_pos (by omega)]
        rfl
      · rw [if_neg hle, if_neg (by omega)]
        rfl
  · intro p₁ hp₁ _
    rw [hp', some.injEq] at hp₁
    subst hp₁
    rw [hlog]
    exact mem_append_right _ (by simp [takeOver])

variable {s : Stmt}

lemma LeaseInvariant.step {rep : Reply s} (hw : LeaseInvariant w pk)
    (hexec : w.db.exec sched s = some (rep, w'.db))
    (hlog : w'.log = w.log ++ w.db.events sched s) : LeaseInvariant w' pk := by
  obtain ⟨evs, hevs, heff⟩ := w.db.exec_partitionEffect hexec pk
  have hacq : ∀ e, acquirers w'.log pk e = acquirers w.log pk e ++ acquirers evs pk e := by
    intro e
    rw [hlog, acquirers_append, acquirers_eq_aboutPartition (w.db.events sched s), hevs]
  cases heff with
  | keep hkeep =>
    refine hw.of_same_epoch (fun e => by simpa using hacq e) (by simp [epochOf, hkeep]) ?_
    intro p' hp' _
    exact ⟨p', hkeep ▸ hp', rfl, rfl⟩
  | create hp hp' howner hepoch =>
    refine hw.of_same_epoch (fun e => by simpa using hacq e)
      (by simp [epochOf, hp, hp', hepoch]) ?_
    intro p' hp'' hne
    rw [hp', some.injEq] at hp''
    exact absurd (hp'' ▸ howner) hne
  | renew hp hp' | drain hp hp' =>
    refine hw.of_same_epoch (fun e => by simpa using hacq e)
      (by simp [epochOf, hp, hp']) ?_
    intro p' hp'' _
    rw [hp', some.injEq] at hp''
    exact ⟨_, hp, hp'' ▸ rfl, hp'' ▸ rfl⟩
  | release hp hp' | leave hp hp' =>
    refine hw.of_same_epoch (fun e => by simpa using hacq e)
      (by simp [epochOf, hp, hp', giveUp]) ?_
    intro p' hp'' hne
    rw [hp', some.injEq] at hp''
    exact absurd (hp'' ▸ rfl) hne
  | @acquire queue owner now ttl limit p hp hp' hqueue hfree =>
    refine hw.of_acquire hp hp' fun e => ?_
    rw [hacq]
    congr 1
    subst hqueue
    by_cases he : p.epoch + 1 = e
    · rw [if_pos he]
      exact filterMap_cons_some (if_pos ⟨rfl, rfl, he⟩)
    · rw [if_neg he]
      exact filterMap_cons_none (if_neg fun h => he h.2.2)

/-- The invariant holds for every partition of every reachable world. -/
theorem World.Reachable.leaseInvariant (h : w.Reachable) (pk : PartitionKey) :
    LeaseInvariant w pk := by
  refine World.Reachable.invariant (P := fun w => LeaseInvariant w pk) ?_
    (fun hw hexec hlog => hw.step hexec hlog) h
  refine ⟨le_refl _, ?_, ?_⟩
  · intro e
    have : ¬(1 ≤ e ∧ e ≤ initial.db.epochOf pk) := by
      rintro ⟨h₁, h₂⟩
      have : initial.db.epochOf pk = 0 := rfl
      omega
    rw [if_neg this]
    rfl
  · intro p hp
    cases hp

/-! ### Requests -/

/-- What the log says about the stamps of one request. -/
structure RowInvariant (w : World) (k : Key) : Prop where
  /-- The epoch of a stamp is not ahead of the partition. -/
  epoch_bounds : ∀ r, w.db.requests.get? k = some r →
    0 ≤ r.dispatchEpoch ∧ r.dispatchEpoch ≤ w.db.epochOf r.partitionKey
  /-- The sequence has passed every drawn attempt. -/
  drawn_lt : ∀ a ∈ drawnAttempts w.log k, a < w.db.nextAttempt
  /-- A stamped row carries the last attempt drawn for it. -/
  isGreatest : ∀ r, w.db.requests.get? k = some r → 0 < r.dispatchEpoch →
    IsGreatest { a | a ∈ drawnAttempts w.log k } r.dispatchAttempt

namespace Database

lemma exec_epochOf_le {db db' : Database} {sched : Sched} {s : Stmt} {rep : Reply s}
    (h : db.exec sched s = some (rep, db')) (pk : PartitionKey) :
    db.epochOf pk ≤ db'.epochOf pk := by
  obtain ⟨evs, -, heff⟩ := db.exec_partitionEffect h pk
  cases heff with
  | keep hkeep => simp [epochOf, hkeep]
  | create hp hp' howner hepoch => simp [epochOf, hp, hp', hepoch]
  | renew hp hp' | drain hp hp' => simp [epochOf, hp, hp']
  | release hp hp' | leave hp hp' => simp [epochOf, hp, hp', giveUp]
  | acquire hp hp' =>
    rw [epochOf_of_some hp, epochOf_of_some hp']
    exact le_of_lt (Int.lt_add_one_of_le (le_refl _))

lemma exec_nextAttempt_le {db db' : Database} {sched : Sched} {s : Stmt} {rep : Reply s}
    (h : db.exec sched s = some (rep, db')) : db.nextAttempt ≤ db'.nextAttempt := by
  cases s with
  | enqueue createdAt reqs =>
    obtain ⟨db₁, h₁, heq⟩ := map_eq_some_iff.mp h
    obtain ⟨t, -, rfl⟩ := map_eq_some_iff.mp h₁
    cases heq
    exact le_refl _
  | dispatch queue owner now limit | burnAttempts n =>
    cases h
    exact Int.le_add_of_nonneg_right (Int.natCast_nonneg _)
  | ensurePartitions queue =>
    have hdb : db.ensurePartitions queue = db' := congrArg Prod.snd (some.inj h)
    rw [← hdb, ensurePartitions]
  | _ =>
    cases h
    exact le_refl _

end Database

lemma RowInvariant.of_not_drawn (hw : RowInvariant w k)
    (hlog : drawnAttempts w'.log k = drawnAttempts w.log k)
    (hnext : w.db.nextAttempt ≤ w'.db.nextAttempt)
    (hepoch : ∀ pk, w.db.epochOf pk ≤ w'.db.epochOf pk) (hnonneg : ∀ pk, 0 ≤ w.db.epochOf pk)
    (hrow : ∀ r', w'.db.requests.get? k = some r' → r'.dispatchEpoch = 0 ∨
      ∃ r, w.db.requests.get? k = some r ∧ r'.dispatchEpoch = r.dispatchEpoch ∧
        r'.dispatchAttempt = r.dispatchAttempt ∧ r'.partitionKey = r.partitionKey) :
    RowInvariant w' k := by
  refine ⟨?_, ?_, ?_⟩
  · intro r' hr'
    rcases hrow r' hr' with hzero | ⟨r, hr, he, -, hpk⟩
    · have h₁ := hnonneg r'.partitionKey
      have h₂ := hepoch r'.partitionKey
      omega
    · have h₁ := hw.epoch_bounds r hr
      have h₂ := hepoch r.partitionKey
      rw [hpk, he]
      exact ⟨h₁.1, h₁.2.trans h₂⟩
  · intro a ha
    rw [hlog] at ha
    exact lt_of_lt_of_le (hw.drawn_lt a ha) hnext
  · intro r' hr' hpos
    rcases hrow r' hr' with hzero | ⟨r, hr, he, ha, -⟩
    · omega
    · rw [hlog, ha]
      exact hw.isGreatest r hr (he ▸ hpos)

lemma RowInvariant.of_dispatch (hw : RowInvariant w k) {a : ℤ} {r : RequestRow}
    (hlog : drawnAttempts w'.log k = drawnAttempts w.log k ++ [a]) (hlo : w.db.nextAttempt ≤ a)
    (hhi : a < w'.db.nextAttempt)
    (hr' : w'.db.requests.get? k = some { r with dispatchEpoch := p.epoch, dispatchAttempt := a })
    (hepoch : 0 ≤ p.epoch ∧ p.epoch ≤ w'.db.epochOf r.partitionKey) :
    RowInvariant w' k := by
  refine ⟨?_, ?_, ?_⟩
  · intro r₁ hr₁
    rw [hr', some.injEq] at hr₁
    subst hr₁
    exact hepoch
  · intro b hb
    rw [hlog] at hb
    rcases mem_append.mp hb with hb | hb
    · have := hw.drawn_lt b hb
      omega
    · rw [mem_singleton.mp hb]
      exact hhi
  · intro r₁ hr₁ _
    rw [hr', some.injEq] at hr₁
    subst hr₁
    rw [hlog]
    refine ⟨mem_append_right _ mem_cons_self, ?_⟩
    intro b hb
    rcases mem_append.mp hb with hb | hb
    · have := hw.drawn_lt b hb
      exact le_of_lt (this.trans_le hlo)
    · exact le_of_eq (mem_singleton.mp hb)

lemma RowInvariant.step {rep : Reply s} (hw : RowInvariant w k)
    (hleases : ∀ pk, LeaseInvariant w pk) (hexec : w.db.exec sched s = some (rep, w'.db))
    (hlog : w'.log = w.log ++ w.db.events sched s) : RowInvariant w' k := by
  obtain ⟨evs, hevs, heff⟩ := w.db.exec_rowEffect hexec k
  have hdrawn : drawnAttempts w'.log k = drawnAttempts w.log k ++ drawnAttempts evs k := by
    rw [hlog, drawnAttempts_append, drawnAttempts_eq_aboutKey (w.db.events sched s), hevs]
  have hnext := exec_nextAttempt_le hexec
  have hepoch := exec_epochOf_le hexec
  have hnonneg := fun pk => (hleases pk).epoch_nonneg
  have hsame (h : drawnAttempts evs k = []) := hw.of_not_drawn
    (by rw [hdrawn, h, append_nil]) hnext hepoch hnonneg
  cases heff with
  | keep hkeep =>
    refine hsame rfl fun r' hr' => .inr ⟨r', hkeep ▸ hr', rfl, rfl, rfl⟩
  | cancel hr hr' =>
    refine hsame rfl fun r₁ hr₁ => .inr ⟨_, hr, ?_⟩
    rw [hr', some.injEq] at hr₁
    subst hr₁
    exact ⟨rfl, rfl, rfl⟩
  | enqueue hr hr' hfresh =>
    refine hsame rfl fun r₁ hr₁ => .inl ?_
    rw [hr', some.injEq] at hr₁
    subst hr₁
    exact hfresh.epoch_eq
  | undispatch hr hr' | retry hr hr' | reset hr hr' =>
    refine hsame rfl fun r₁ hr₁ => .inl ?_
    rw [hr', some.injEq] at hr₁
    subst hr₁
    rfl
  | ack hr hr' =>
    refine hsame rfl fun r₁ hr₁ => ?_
    rw [hr'] at hr₁
    cases hr₁
  | @dispatch queue owner now limit r p a hr hr' hqueue hpending hp howner hactive hlo hhi =>
    have hep : w.db.epochOf r.partitionKey = p.epoch := epochOf_of_some hp
    refine hw.of_dispatch ?_ hlo hhi hr' ⟨hep ▸ hnonneg _, hep ▸ hepoch _⟩
    rw [hdrawn]
    congr 1
    exact filterMap_cons_some (if_pos (Table.key_of_get? hr))

/-- The invariant holds for every key of every reachable world. -/
theorem World.Reachable.rowInvariant (h : w.Reachable) (k : Key) :
    RowInvariant w k := by
  suffices hboth : (∀ pk, LeaseInvariant w pk) ∧ RowInvariant w k from hboth.2
  refine World.Reachable.invariant
    (P := fun w => (∀ pk, LeaseInvariant w pk) ∧ RowInvariant w k) ?_ ?_ h
  · refine ⟨World.Reachable.leaseInvariant .refl, ⟨?_, ?_, ?_⟩⟩
    · intro r hr
      cases hr
    · intro a ha
      cases ha
    · intro r hr
      cases hr
  · intro w w' sched s rep hw hexec hlog
    exact ⟨fun pk => (hw.1 pk).step hexec hlog, hw.2.step hw.1 hexec hlog⟩

/-! ### Only the acquirer of an epoch stamps rows with it -/

/-- Every dispatch was made by the acquirer of the epoch it stamped. -/
theorem World.Reachable.mem_acquirers_of_dispatched (h : w.Reachable) {owner : String} {q : Request}
    (hq : .dispatched owner q ∈ w.log) :
    owner ∈ acquirers w.log ⟨q.queue, q.partition⟩ q.epoch := by
  suffices hboth : (∀ pk, LeaseInvariant w pk) ∧ ∀ o q, .dispatched o q ∈ w.log →
      o ∈ acquirers w.log ⟨q.queue, q.partition⟩ q.epoch from hboth.2 owner q hq
  refine World.Reachable.invariant (P := fun w => (∀ pk, LeaseInvariant w pk) ∧
    ∀ o q, .dispatched o q ∈ w.log → o ∈ acquirers w.log ⟨q.queue, q.partition⟩ q.epoch) ?_ ?_ h
  · exact ⟨World.Reachable.leaseInvariant .refl, fun o q hq => absurd hq not_mem_nil⟩
  · intro w w' sched s rep hw hexec hlog
    refine ⟨fun pk => (hw.1 pk).step hexec hlog, fun o q hq => ?_⟩
    rw [hlog] at hq ⊢
    rw [acquirers_append]
    refine mem_append_left _ ?_
    rcases mem_append.mp hq with hq | hq
    · exact hw.2 o q hq
    · obtain ⟨evs, hevs, heff⟩ := w.db.exec_rowEffect hexec q.key
      have hmem : .dispatched o q ∈ evs := by
        rw [← hevs, aboutKey, mem_filter]
        exact ⟨hq, by simp [Event.key?]⟩
      cases heff with
      | @dispatch queue owner now limit r p a hr hr' hqueue hpending hp howner hactive hlo hhi =>
        obtain ⟨rfl, rfl⟩ := Event.dispatched.inj (mem_singleton.mp hmem)
        rw [← howner]
        exact (hw.1 r.partitionKey).holder p hp (howner.symm ▸ owner.name_ne)
      | keep | cancel => cases hmem
      | _ => simp at hmem

/-! ### Outcome writes -/

/-- The partition a returned request belongs to. -/
def Request.partitionKey (q : Request) : PartitionKey := ⟨q.queue, q.partition⟩

/-- Who writes an outcome with this statement (`Ack`, `Retry`, `Undispatch` or `Defer`), and for
which dispatches. -/
def Stmt.outcome? : Stmt → Option (Owner × List Stamp)
  | .undispatch owner stamps _ => some (owner, stamps)
  | .retry owner stamp _ _ => some (owner, [stamp])
  | .ack owner cs _ => some (owner, cs.map Completion.stamp)
  | _ => none

/-- The statement is an `Ack`. -/
def Stmt.isAck : Stmt → Bool
  | .ack .. => true
  | _ => false

lemma Database.row_of_outcome {db db' : Database} {rep : Reply s}
    (hexec : db.exec sched s = some (rep, db')) {o : Owner} {stamps : List Stamp}
    (hs : s.outcome? = some (o, stamps)) (hne : db'.requests.get? k ≠ db.requests.get? k) :
    ∃ r p, db.requests.get? k = some r ∧ db.partitionOfRow r = some p ∧
      ⟨k, r.dispatchAttempt⟩ ∈ stamps ∧ 0 < r.dispatchEpoch ∧ p.owner = o.name ∧
      (s.isAck = true → r.dispatchEpoch = p.epoch) := by
  obtain ⟨evs, -, heff⟩ := db.exec_rowEffect hexec k
  cases heff with
  | keep hkeep => exact absurd hkeep hne
  | undispatch hr hr' hnamed hstamped hp howner =>
    cases hs
    exact ⟨_, _, hr, hp, hnamed, hstamped, howner, nofun⟩
  | retry hr hr' hstamped hp howner =>
    cases hs
    exact ⟨_, _, hr, hp, mem_singleton.mpr rfl, hstamped, howner, nofun⟩
  | @ack owner cs createdAt r p c res hr hr' hnamed hkey hattempt hstamped hp howner hepoch =>
    cases hs
    refine ⟨r, p, hr, hp, ?_, hstamped, howner, fun _ => hepoch.symm⟩
    refine mem_map.mpr ⟨c, hnamed, ?_⟩
    rw [Completion.stamp, hkey, hattempt]
  | cancel | enqueue | dispatch | reset => cases hs

lemma World.Reachable.acquirers_eq (h : w.Reachable) (pk : PartitionKey) {e : ℤ} (he : 1 ≤ e) :
    if e ≤ w.db.epochOf pk then
      ∃ o, acquirers w.log pk e = [o] ∧ ∀ o' q, .dispatched o' q ∈ w.log →
        q.partitionKey = pk → q.epoch = e → o' = o
    else acquirers w.log pk e = [] := by
  have hlen := (h.leaseInvariant pk).length_acquirers e
  split
  next hle =>
    rw [if_pos ⟨he, hle⟩] at hlen
    obtain ⟨o, ho⟩ := length_eq_one_iff.mp hlen
    refine ⟨o, ho, ?_⟩
    rintro o' q hq rfl rfl
    have hmem : o' ∈ acquirers w.log q.partitionKey q.epoch := h.mem_acquirers_of_dispatched hq
    rw [ho] at hmem
    exact mem_singleton.mp hmem
  next hle =>
    rw [if_neg fun h => hle h.2] at hlen
    exact length_eq_zero_iff.mp hlen

/-- Stale dispatches are fenced off.  In every reachable world, an `Ack`, `Retry`, `Undispatch` or
`Defer` by `o` changes a request only if it names the largest attempt ever drawn for it, the request
is still stamped and `o` holds its partition; `Ack` also needs the partition's current epoch.
Epochs of stamps never run ahead of the partition, and every epoch of a partition has exactly one
acquirer, whose dispatches are the only ones that stamp with it. -/
theorem outcome_fenced {w : World} (h : w.Reachable) :
    (∀ sched s rep w' o stamps k, w.exec sched s = some (rep, w') →
      s.outcome? = some (o, stamps) → w'.db.requests.get? k ≠ w.db.requests.get? k →
      ∃ r p, w.db.requests.get? k = some r ∧ w.db.partitionOfRow r = some p ∧
        ⟨k, r.dispatchAttempt⟩ ∈ stamps ∧
        IsGreatest { a | a ∈ drawnAttempts w.log k } r.dispatchAttempt ∧
        0 < r.dispatchEpoch ∧ p.owner = o.name ∧
        (s.isAck = true → r.dispatchEpoch = p.epoch)) ∧
    (∀ k r, w.db.requests.get? k = some r →
      0 ≤ r.dispatchEpoch ∧ r.dispatchEpoch ≤ w.db.epochOf r.partitionKey) ∧
    ∀ pk e, 1 ≤ e →
      if e ≤ w.db.epochOf pk then
        ∃ o, acquirers w.log pk e = [o] ∧ ∀ o' q, .dispatched o' q ∈ w.log →
          q.partitionKey = pk → q.epoch = e → o' = o
      else acquirers w.log pk e = [] := by
  refine ⟨?_, fun k r hr => (h.rowInvariant k).epoch_bounds r hr, fun pk e he =>
    h.acquirers_eq pk he⟩
  intro sched s rep w' o stamps k hexec hs hne
  obtain ⟨hdb, -⟩ := exec_eq_some.mp hexec
  obtain ⟨r, p, hr, hp, hnamed, hpos, howner, hepoch⟩ := row_of_outcome hdb hs hne
  exact ⟨r, p, hr, hp, hnamed, (h.rowInvariant k).isGreatest r hr hpos, hpos, howner, hepoch⟩

/-- A dispatcher takes a request, its leases lapse, and a second one takes the request over. -/
def takeoverRun : List Stmt :=
  let first : Owner := ⟨"dispatcher-0", first_ne⟩
  let second : Owner := ⟨"dispatcher-1", second_ne⟩
  [.ensurePartitions "q",
    .enqueue 0 [⟨⟨"r1", "t1"⟩, "q", 0, 0, 0, 600, "", [], false, 0⟩],
    .acquirePartitions "q" first 0 30000000000 64,
    .dispatch "q" first 0 10,
    .acquirePartitions "q" second 60000000000 30000000000 64,
    .resetStale "q" second none,
    .dispatch "q" second 60000000000 10]

/-- The `Ack` of the second dispatcher changes the request, with everything that follows from
it. -/
theorem takeoverRun_ack_fenced :
    let w := initial.run takeoverRun
    let o : Owner := ⟨"dispatcher-1", by decide⟩
    ∃ r p, w.db.requests.get? ⟨"r1", "t1"⟩ = some r ∧ w.db.partitionOfRow r = some p ∧
      ⟨⟨"r1", "t1"⟩, r.dispatchAttempt⟩ ∈ [(⟨⟨"r1", "t1"⟩, 2⟩ : Stamp)] ∧
      IsGreatest { a | a ∈ drawnAttempts w.log ⟨"r1", "t1"⟩ } r.dispatchAttempt ∧
      0 < r.dispatchEpoch ∧ p.owner = o.name ∧
      ((Stmt.ack o [⟨⟨"r1", "t1"⟩, 2, "results", "ok", 0⟩] 1).isAck = true →
        r.dispatchEpoch = p.epoch) :=
  (outcome_fenced (reachable_run takeoverRun)).1 Sched.plain
    (.ack ⟨"dispatcher-1", by decide⟩ [⟨⟨"r1", "t1"⟩, 2, "results", "ok", 0⟩] 1) _ _ _ _
    ⟨"r1", "t1"⟩ rfl rfl (by decide +kernel)

end LlmdAsync.SqlQueue
