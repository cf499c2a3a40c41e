import LlmdAsync.SqlQueue.PartitionCounts
import LlmdAsync.SqlQueue.Solo

/-!
# What one `Rebalance` comes to

The second half of a `Rebalance` that runs alone: with an exact picture of its leases and nothing
that drains, the consumer gives up what exceeds its share or acquires what it lacks (`Balanced`).
`Rebalanced` says what the whole call means for the rows and the members, so that nothing else
needs to look into the code.
-/

namespace LlmdAsync.SqlQueue

open List Option Table Finset Database Consumer

/-! ### Towards the share -/

section Balance

variable {cfg : Config} {c : Owner} {sched : Sched} {x y : Solo}

/-- No partition of the consumer drains. -/
def Undrained (cfg : Config) (c : Owner) (x : Solo) : Prop :=
  ∀ p row, x.db.partitions.get? ⟨cfg.queue, p⟩ = some row → row.owner = c.name →
    row.draining = false

variable {p : ℤ} {ps : List ℤ} {now : Time}

/-- The active partitions are those of the leases that do not drain. -/
lemma mem_active {m : Consumer} :
    p ∈ m.partitionsLocked.1 ↔ ∃ st, m.leases.get? p = some st ∧ st.draining = false :=
  mem_listed.trans (by simp only [Bool.not_eq_true'])

/-- The draining partitions are those of the leases that drain. -/
lemma mem_draining {m : Consumer} :
    p ∈ m.partitionsLocked.2 ↔ ∃ st, m.leases.get? p = some st ∧ st.draining = true :=
  mem_listed

/-- No partition is listed twice. -/
lemma nodup_listed (m : Consumer) (P : PartitionState → Bool) :
    (sortInts ((m.leases.rows.filter P).map PartitionState.partition)).Nodup :=
  (perm_insertionSort _ _).nodup_iff.mpr (m.leases.nodup.sublist (filter_sublist.map _))

/-- No partition is listed twice among the active ones. -/
lemma nodup_active (m : Consumer) : m.partitionsLocked.1.Nodup := nodup_listed m _

/-- If nothing drains, the active partitions are all that the consumer owns. -/
lemma Synced.mem_active (h : Synced cfg c x) (hu : Undrained cfg c x) :
    p ∈ x.memory.partitionsLocked.1 ↔
      ∃ row, x.db.partitions.get? ⟨cfg.queue, p⟩ = some row ∧ row.owner = c.name := by
  rw [SqlQueue.mem_active, h.known p false]
  exact ⟨fun ⟨row, hrow, ho, _⟩ => ⟨row, hrow, ho⟩,
    fun ⟨row, hrow, ho⟩ => ⟨row, hrow, ho, hu p row hrow ho⟩⟩

/-- Their number is that of the partitions it owns. -/
lemma Synced.length_active (h : Synced cfg c x) (hu : Undrained cfg c x)
    (hin : x.db.Inside cfg.queue) :
    x.memory.partitionsLocked.1.length = (x.db.ownedBy cfg.queue c.name).card := by
  rw [← toFinset_card_of_nodup (nodup_active x.memory)]
  congr 1
  ext p
  rw [List.mem_toFinset, h.mem_active hu, mem_ownedBy hin]

/-- The list of draining partitions is then empty. -/
lemma Synced.draining_eq_nil (h : Synced cfg c x) (hu : Undrained cfg c x) :
    x.memory.partitionsLocked.2 = [] := by
  refine eq_nil_iff_forall_not_mem.mpr fun p hp => ?_
  obtain ⟨row, hrow, ho, hd⟩ := (h.known p true).mp (mem_draining.mp hp)
  rw [hu p row hrow ho] at hd
  cases hd

/-- New leases have nothing in flight. -/
lemma idle_adopt {m : Consumer} (hidle : m.Idle)
    {acquired : List Lease} (hnd : (acquired.map Lease.partition).Nodup) (now : Time)
    {st : PartitionState} (hst : (m.adopt acquired now).leases.get? p = some st) :
    st.inflight = 0 := by
  obtain ⟨hnew, hold⟩ := get?_leases_adopt (c := m) hnd now p
  by_cases hp : p ∈ acquired.map Lease.partition
  · obtain ⟨l, hl, hlp⟩ := mem_map.mp hp
    rw [hnew l hl hlp, some.injEq] at hst
    rw [← hst]
    rfl
  · rw [hold hp] at hst
    exact hidle p st hst

/-- Below its share, the consumer acquires partitions. -/
lemma ends_grow (hidle : x.memory.Idle) (now : Time) {need : ℕ} (hneed : 0 < need) :
    (grow cfg c now need []).Ends (Solo.exec sched) (fun _ y => x.Stays y ∧
      y.memory.Idle ∧ y.db.partitions = (x.db.acquirePartitions sched cfg.queue c.name now
        cfg.leaseTTL need).2.partitions) x := by
  obtain ⟨acquired, db', hacq⟩ : ∃ acquired db',
      x.db.acquirePartitions sched cfg.queue c.name now cfg.leaseTTL need = (acquired, db') :=
    ⟨_, _, rfl⟩
  have hnd : (acquired.map Lease.partition).Nodup := by
    have h := @Database.nodup_acquirePartitions x.db sched cfg.queue c.name now cfg.leaseTTL need
    rwa [hacq] at h
  have hdisp : db'.dispatchers = x.db.dispatchers :=
    (congrArg (fun r : List Lease × Database => r.2.dispatchers) hacq).symm
  have hexec : x.db.exec sched (.acquirePartitions cfg.queue c now cfg.leaseTTL need) =
      some (acquired, db') := congrArg some hacq
  have hundrain : (x.memory.undrain []).Idle := by
    intro p st hst
    rw [undrain, get?_map] at hst
    obtain ⟨st', hst', rfl⟩ := map_eq_some_iff.mp hst
    rw [if_neg not_mem_nil]
    exact hidle p st' hst'
  have hset : storeSetDraining cfg.queue c ([].take need) false = pure true := by
    rw [take_nil]
    exact if_pos rfl
  have hlen : ¬need = ([].take need : List ℤ).length := by
    rw [take_nil, length_nil]
    omega
  unfold grow
  refine .bind ?_
  rw [hset, hacq]
  refine .pure (ends_critical ?_)
  rw [if_neg hlen, take_nil, length_nil, Nat.sub_zero]
  refine ends_call hexec (ends_critical ((ends_storeResetStale _ (.refl _)).weaken ?_))
  rintro ok y ⟨-, hy⟩
  refine ⟨⟨hy.dispatchers.trans hdisp, hy.stopping, hy.seeded⟩, fun p st hst => ?_, hy.partitions⟩
  rw [hy.leases] at hst
  exact idle_adopt hundrain hnd now hst

/-- As many candidates as asked for, all of them active. -/
lemma drainCandidates_spec (m : Consumer) {active : List ℤ} (hnd : active.Nodup) {n : ℕ}
    (hn : n ≤ active.length) :
    (m.drainCandidatesLocked active n).Nodup ∧ (m.drainCandidatesLocked active n).length = n ∧
      ∀ p ∈ m.drainCandidatesLocked active n, p ∈ active := by
  have hsort := perm_insertionSort m.drainBefore active
  have hperm : (m.drainCandidatesLocked active n).Perm
      ((active.insertionSort m.drainBefore).take n) := perm_insertionSort _ _
  refine ⟨hperm.nodup_iff.mpr ?_, ?_, fun p hp => ?_⟩
  · exact (hsort.nodup_iff.mpr hnd).sublist (take_sublist _ _)
  · rw [hperm.length_eq, length_take, hsort.length_eq, Nat.min_eq_left hn]
  · exact hsort.mem_iff.mp (mem_of_mem_take (hperm.mem_iff.mp hp))

/-- What marking partitions as draining makes of a row. -/
def marked (cfg : Config) (c : Owner) (ps : List ℤ) (row : PartitionRow) : PartitionRow :=
  if mine cfg c row && row.key.partition ∈ ps then { row with draining := true } else row

/-- Marking leases puts nothing in flight. -/
lemma idle_drain {m : Consumer} (hidle : m.Idle) (ps : List ℤ) (now : Time) :
    (m.drain ps now).Idle := by
  intro p st' hst'
  rw [get?_drain] at hst'
  obtain ⟨st, hst, rfl⟩ := map_eq_some_iff.mp hst'
  have hzero := hidle p st hst
  split
  · exact hzero
  · exact hzero

/-- What has just been marked is released. -/
lemma settled_marked {row : PartitionRow} (h : mine cfg c row = true → row.draining = false) :
    settled cfg c (marked cfg c ps row) =
      if mine cfg c row && row.key.partition ∈ ps then giveUp row else row := by
  unfold marked
  split
  next hsel =>
    have hmine : mine cfg c { row with draining := true } = true := (Bool.and_eq_true _ _ ▸ hsel).1
    rw [settled, hmine, Bool.true_and, if_pos rfl]
    rfl
  · by_cases hmine : mine cfg c row = true
    · exact settled_of_not_draining (h hmine)
    · exact settled_of_not_mine (Bool.eq_false_iff.mpr hmine)

/-- Above its share, the consumer releases what exceeds it. -/
lemma ends_shrink (h : Agrees cfg c x) (hidle : x.memory.Idle) (hu : Undrained cfg c x)
    (now : Time) {n : ℕ} (hn : n ≤ x.memory.partitionsLocked.1.length) :
    (shrink cfg c now x.memory.partitionsLocked.1 n).Ends (Solo.exec sched) (fun _ y =>
      x.Stays y ∧ y.memory.Idle ∧ ∃ ps : List ℤ, ps.Nodup ∧ ps.length = n ∧
        (∀ p ∈ ps, p ∈ x.memory.partitionsLocked.1) ∧
          ∀ pk, y.db.partitions.get? pk = (x.db.partitions.get? pk).map fun row =>
            if mine cfg c row && row.key.partition ∈ ps then giveUp row else row) x := by
  obtain ⟨hnd, hlen, hsub⟩ := drainCandidates_spec x.memory (nodup_active x.memory) hn
  refine ends_critical (.bind ((ends_storeSetDraining _ true).weaken ?_))
  rintro ok ⟨m, db⟩ ⟨rfl, hm, hd, hrows⟩
  have hm : m = x.memory := hm
  subst hm
  have hmark : Agrees cfg c ⟨x.memory.drain (x.memory.drainCandidatesLocked
      x.memory.partitionsLocked.1 n) now, db⟩ :=
    h.mark (g := fun st => { st with draining := true, drainSince := now }) hrows
      (get?_drain _ _ now) fun st => ⟨rfl, rfl⟩
  refine ends_critical ((ends_releaseDrained hmark (idle_drain hidle _ now) now).weaken ?_)
  rintro ok y ⟨-, hy, -, hidle', hy'⟩
  refine ⟨⟨hy.dispatchers.trans hd, hy.stopping, hy.seeded⟩, hidle', _, hnd, hlen, hsub,
    fun pk => ?_⟩
  refine (hy' pk).trans ((congrArg _ (hrows pk)).trans ?_)
  rw [Option.map_map]
  refine Option.map_congr fun row hrow => settled_marked fun hmine => ?_
  obtain ⟨hq, ho⟩ := mine_iff.mp hmine
  refine hu row.key.partition row ?_ ho
  rw [← hq]
  exact mem_iff_get?.mp (mem_of_get? hrow)

/-- What moving towards a share of `target` partitions does to the rows.  The consumer keeps its
partitions unless it has too many, and takes only unowned or lapsed ones. -/
structure Balanced (cfg : Config) (c : Owner) (now : Time) (target : ℕ) (x y : Solo) : Prop where
  stays : x.Stays y
  idle : ∀ p st, y.memory.leases.get? p = some st → st.inflight = 0
  absent : ∀ pk, x.db.partitions.get? pk = none → y.db.partitions.get? pk = none
  other : ∀ pk row, x.db.partitions.get? pk = some row → mine cfg c row = false →
    y.db.partitions.get? pk = some row ∨
      Database.acquirable cfg.queue now.unixMilli row = true ∧ y.db.partitions.get? pk =
        some (Database.takeOver c.name (Time.unixMilli (now + cfg.leaseTTL)) row)
  own : ∀ pk row, x.db.partitions.get? pk = some row → mine cfg c row = true →
    y.db.partitions.get? pk = some row ∨
      target < (x.db.ownedBy cfg.queue c.name).card ∧
        y.db.partitions.get? pk = some (Database.giveUp row)
  load_le : (y.db.ownedBy cfg.queue c.name).card ≤ target
  fills : (y.db.ownedBy cfg.queue c.name).card = target ∨
    ∀ pk row, y.db.partitions.get? pk = some row →
      Database.acquirable cfg.queue now.unixMilli row = false

/-- The partitions of the consumer are not up for acquisition. -/
def Fresh (cfg : Config) (c : Owner) (now : Time) (x : Solo) : Prop :=
  ∀ pk row, x.db.partitions.get? pk = some row → mine cfg c row = true →
    Database.acquirable cfg.queue now.unixMilli row = false

/-- Acquiring what is missing moves towards the share. -/
lemma balanced_grow (hin : x.db.Inside cfg.queue) (hfresh : Fresh cfg c now x)
    (httl : 0 ≤ cfg.leaseTTL) (hlock : ∀ pk, sched.lockedPartition pk = false) {target : ℕ}
    (hlt : (x.db.ownedBy cfg.queue c.name).card < target) (hstays : x.Stays y)
    (hidle : y.memory.Idle)
    (hdb : y.db.partitions = (x.db.acquirePartitions sched cfg.queue c.name now cfg.leaseTTL
      (target - (x.db.ownedBy cfg.queue c.name).card)).2.partitions) :
    Balanced cfg c now target x y := by
  set need := target - (x.db.ownedBy cfg.queue c.name).card with hneed
  set taken := x.db.taken sched cfg.queue now.unixMilli need with htaken
  set expires := Time.unixMilli (now + cfg.leaseTTL) with hexpires
  have hget : ∀ pk, y.db.partitions.get? pk = (x.db.partitions.get? pk).map fun row =>
      if taken row then takeOver c.name expires row else row := by
    intro pk
    rw [hdb]
    exact get?_acquirePartitions ..
  have hfree : ∀ row, taken row = true →
      acquirable cfg.queue now.unixMilli row = true := fun row h =>
    (Bool.and_eq_true _ _ ▸ h).1
  have hin' : y.db.Inside cfg.queue := hin.of_get? hget
  -- what is owned afterwards has been owned before or is taken
  have hown : y.db.ownedBy cfg.queue c.name =
      x.db.ownedBy cfg.queue c.name ∪ x.db.selection cfg.queue taken := by
    ext p
    rw [mem_union, mem_ownedBy hin', mem_ownedBy hin, mem_selection hin]
    simp only [hget, map_eq_some_iff]
    constructor
    · rintro ⟨-, ⟨row, hrow, rfl⟩, ho⟩
      by_cases ht : taken row = true
      · exact .inr ⟨row, hrow, ht⟩
      · rw [if_neg ht] at ho
        exact .inl ⟨row, hrow, ho⟩
    · rintro (⟨row, hrow, ho⟩ | ⟨row, hrow, ht⟩)
      · refine ⟨_, ⟨row, hrow, rfl⟩, ?_⟩
        split
        · rfl
        · exact ho
      · exact ⟨_, ⟨row, hrow, rfl⟩, by rw [if_pos ht]; rfl⟩
  have hdisj : Disjoint (x.db.ownedBy cfg.queue c.name) (x.db.selection cfg.queue taken) := by
    rw [Finset.disjoint_left]
    intro p hp hp'
    obtain ⟨row, hrow, ho⟩ := (mem_ownedBy hin).mp hp
    obtain ⟨row', hrow', ht⟩ := (mem_selection hin).mp hp'
    rw [← some.inj (hrow.symm.trans hrow')] at ht
    have hmine : mine cfg c row = true := mine_iff.mpr ⟨by rw [key_of_get? hrow], ho⟩
    exact absurd (hfree row ht) (Bool.eq_false_iff.mp (hfresh _ row hrow hmine))
  have hcard : (y.db.ownedBy cfg.queue c.name).card = (x.db.ownedBy cfg.queue c.name).card +
      min need (x.db.selection cfg.queue (acquirable cfg.queue now.unixMilli)).card := by
    rw [hown, card_union_of_disjoint hdisj, card_taken hin hlock]
  refine ⟨hstays, hidle, fun pk hpk => ?_, fun pk row hrow hmine => ?_,
    fun pk row hrow hmine => ?_, ?_, ?_⟩
  · rw [hget, hpk, map_none]
  · rw [hget, hrow, map_some]
    by_cases ht : taken row = true
    · exact .inr ⟨hfree row ht, by rw [if_pos ht]⟩
    · exact .inl (by rw [if_neg ht])
  · have ht : ¬taken row = true := fun ht =>
      absurd (hfree row ht) (Bool.eq_false_iff.mp (hfresh pk row hrow hmine))
    exact .inl (by rw [hget, hrow, map_some, if_neg ht])
  · omega
  · by_cases hmany : need ≤
        (x.db.selection cfg.queue (acquirable cfg.queue now.unixMilli)).card
    · exact .inl (by rw [hcard, Nat.min_eq_left hmany]; omega)
    · refine .inr fun pk row' hrow' => ?_
      rw [hget] at hrow'
      obtain ⟨row, hrow, rfl⟩ := map_eq_some_iff.mp hrow'
      by_cases ht : taken row = true
      · rw [if_pos ht]
        exact acquirable_takeOver httl row
      · rw [if_neg ht, Bool.eq_false_iff]
        exact fun h => ht (taken_of_acquirable hin hlock (by omega)
          (mem_of_get? hrow) h)

/-- Releasing what exceeds the share moves towards it. -/
lemma balanced_shrink (h : Synced cfg c x) (hu : Undrained cfg c x) (hin : x.db.Inside cfg.queue)
    {target : ℕ} (hlt : target < (x.db.ownedBy cfg.queue c.name).card) (hstays : x.Stays y)
    (hidle : y.memory.Idle) (hnd : ps.Nodup)
    (hlen : ps.length = (x.db.ownedBy cfg.queue c.name).card - target)
    (hsub : ∀ p ∈ ps, p ∈ x.memory.partitionsLocked.1)
    (hget : ∀ pk, y.db.partitions.get? pk = (x.db.partitions.get? pk).map fun row =>
      if mine cfg c row && row.key.partition ∈ ps then giveUp row else row) :
    Balanced cfg c now target x y := by
  have hin' : y.db.Inside cfg.queue := hin.of_get? hget
  have hown : y.db.ownedBy cfg.queue c.name = x.db.ownedBy cfg.queue c.name \ ps.toFinset := by
    ext p
    rw [mem_sdiff, List.mem_toFinset, mem_ownedBy hin', mem_ownedBy hin]
    simp only [hget, map_eq_some_iff]
    constructor
    · rintro ⟨-, ⟨row, hrow, rfl⟩, ho⟩
      split at ho
      · exact absurd ho.symm c.name_ne
      next hsel =>
        refine ⟨⟨row, hrow, ho⟩, fun hp => hsel ?_⟩
        rw [Bool.and_eq_true, decide_eq_true_eq, mine_iff, key_of_get? hrow]
        exact ⟨⟨rfl, ho⟩, hp⟩
    · rintro ⟨⟨row, hrow, ho⟩, hp⟩
      refine ⟨_, ⟨row, hrow, rfl⟩, ?_⟩
      rw [if_neg]
      · exact ho
      · rw [Bool.and_eq_true, decide_eq_true_eq, key_of_get? hrow]
        exact fun hsel => hp hsel.2
  have hpsub : ps.toFinset ⊆ x.db.ownedBy cfg.queue c.name := by
    intro p hp
    rw [mem_ownedBy hin, ← h.mem_active hu]
    exact hsub p (mem_toFinset.mp hp)
  have hcard : (y.db.ownedBy cfg.queue c.name).card = target := by
    rw [hown, card_sdiff_of_subset hpsub, toFinset_card_of_nodup hnd, hlen]
    omega
  refine ⟨hstays, hidle, fun pk hpk => ?_, fun pk row hrow hmine => ?_,
    fun pk row hrow hmine => ?_, hcard.le, .inl hcard⟩
  · rw [hget, hpk, map_none]
  · rw [hget, hrow, map_some, hmine]
    exact .inl rfl
  · rw [hget, hrow, map_some]
    split
    · exact .inr ⟨hlt, rfl⟩
    · exact .inl rfl

/-- `balance` moves towards the share. -/
lemma ends_balance (h : Agrees cfg c x) (hidle : x.memory.Idle) (hu : Undrained cfg c x)
    (hin : x.db.Inside cfg.queue) (hfresh : Fresh cfg c now x) (httl : 0 ≤ cfg.leaseTTL)
    (hlock : ∀ pk, sched.lockedPartition pk = false) (target : ℕ) :
    (balance cfg c now target).Ends (Solo.exec sched)
      (fun _ y => Balanced cfg c now target x y) x := by
  have hsync := h.synced hidle
  have hlen := hsync.length_active hu hin
  refine ends_critical ?_
  show (if x.memory.partitionsLocked.1.length < target then
      grow cfg c now (target - x.memory.partitionsLocked.1.length) x.memory.partitionsLocked.2
    else if target < x.memory.partitionsLocked.1.length then
      shrink cfg c now x.memory.partitionsLocked.1 (x.memory.partitionsLocked.1.length - target)
    else pure true).Ends (Solo.exec sched) _ x
  split
  next hlt =>
    rw [hsync.draining_eq_nil hu]
    refine (ends_grow hidle now (by omega)).weaken fun _ y hy => ?_
    obtain ⟨hstays, hidle, hdb⟩ := hy
    rw [hlen] at hlt hdb
    exact balanced_grow hin hfresh httl hlock hlt hstays hidle hdb
  · split
    next hlt =>
      refine (ends_shrink h hidle hu now (by omega)).weaken fun _ y hy => ?_
      obtain ⟨hstays, hidle, ps, hnd, hlen', hsub, hget⟩ := hy
      rw [hlen] at hlt hlen'
      exact balanced_shrink hsync hu hin hlt hstays hidle hnd hlen' hsub hget
    · have heq : (x.db.ownedBy cfg.queue c.name).card = target := by omega
      exact .pure ⟨⟨rfl, rfl, rfl⟩, hidle, fun pk hpk => hpk, fun pk row hrow _ => .inl hrow,
        fun pk row hrow _ => .inl hrow, heq.le, .inl heq⟩

end Balance

/-! ### The whole -/

/-- The database once a `Heartbeat` has counted the consumer among the members of its queue. -/
def Database.enrolled (db : Database) (cfg : Config) (c : Owner) (now : Time) : Database :=
  (db.joinMembers cfg.queue c.name (Time.unixMilli (now + cfg.leaseTTL))).expireMembers cfg.queue
    now.unixMilli

/-- What renewing the leases and releasing what drains makes of a row. -/
def refreshed (cfg : Config) (c : Owner) (expires : ℤ) (row : PartitionRow) : PartitionRow :=
  if mine cfg c row then
    if row.draining then Database.giveUp row else { row with leaseExpiresMs := expires }
  else row

/-- What a `Rebalance` does to the rows and the members. -/
structure Rebalanced (cfg : Config) (c : Owner) (now : Time) (x y : Solo) : Prop where
  stopping : y.memory.stopping = x.memory.stopping
  seeded : y.memory.seeded = x.memory.seeded
  idle : ∀ p st, y.memory.leases.get? p = some st → st.inflight = 0
  dispatchers : y.db.dispatchers = (x.db.enrolled cfg c now).dispatchers
  absent : ∀ pk, x.db.partitions.get? pk = none → y.db.partitions.get? pk = none
  /-- The partitions of others stay theirs unless they are unowned or lapsed. -/
  other : ∀ pk row, x.db.partitions.get? pk = some row → mine cfg c row = false →
    y.db.partitions.get? pk = some row ∨
      Database.acquirable cfg.queue now.unixMilli row = true ∧ y.db.partitions.get? pk =
        some (Database.takeOver c.name (Time.unixMilli (now + cfg.leaseTTL)) row)
  /-- The consumer keeps a partition or gives it up. -/
  own : ∀ pk row, x.db.partitions.get? pk = some row → mine cfg c row = true →
    ∃ row', y.db.partitions.get? pk = some row' ∧ (row'.owner = c.name ∨ row'.owner = "")
  /-- Within its share, it only renews the leases of what does not drain. -/
  kept : (x.db.ownedBy cfg.queue c.name).card ≤
      share ((x.db.enrolled cfg c now).countMembers cfg.queue) →
    ∀ pk row, x.db.partitions.get? pk = some row → mine cfg c row = true → row.draining = false →
      y.db.partitions.get? pk =
        some { row with leaseExpiresMs := Time.unixMilli (now + cfg.leaseTTL) }
  /-- What it owns afterwards does not drain and has just been renewed. -/
  held : ∀ pk row, y.db.partitions.get? pk = some row → mine cfg c row = true →
    row.draining = false ∧ row.leaseExpiresMs = Time.unixMilli (now + cfg.leaseTTL)
  load_le : (y.db.ownedBy cfg.queue c.name).card ≤
    share ((x.db.enrolled cfg c now).countMembers cfg.queue)
  fills : (y.db.ownedBy cfg.queue c.name).card =
      share ((x.db.enrolled cfg c now).countMembers cfg.queue) ∨
    ∀ pk row, y.db.partitions.get? pk = some row →
      Database.acquirable cfg.queue now.unixMilli row = false

variable {cfg : Config} {c : Owner} {now : Time} {x y : Solo}

/-- Only partitions, members and flags matter. -/
lemma Rebalanced.congr {x' : Solo}
    (h : Rebalanced cfg c now x y) (hstop : x'.memory.stopping = x.memory.stopping)
    (hseed : x'.memory.seeded = x.memory.seeded) (hpart : x'.db.partitions = x.db.partitions)
    (hdisp : x'.db.dispatchers = x.db.dispatchers) : Rebalanced cfg c now x' y := by
  have henr : (x'.db.enrolled cfg c now).dispatchers = (x.db.enrolled cfg c now).dispatchers := by
    unfold enrolled expireMembers joinMembers
    rw [hdisp]
  have hcount : (x'.db.enrolled cfg c now).countMembers cfg.queue =
      (x.db.enrolled cfg c now).countMembers cfg.queue := by
    unfold countMembers
    rw [henr]
  have howned : x'.db.ownedBy cfg.queue c.name = x.db.ownedBy cfg.queue c.name := by
    unfold ownedBy selection
    rw [hpart]
  refine ⟨h.stopping.trans hstop.symm, h.seeded.trans hseed.symm, h.idle,
    h.dispatchers.trans henr.symm, ?_, ?_, ?_, ?_, h.held, ?_, ?_⟩
  · rw [hpart]
    exact h.absent
  · rw [hpart]
    exact h.other
  · rw [hpart]
    exact h.own
  · rw [howned, hcount, hpart]
    exact h.kept
  · rw [hcount]
    exact h.load_le
  · rw [hcount]
    exact h.fills

/-- No partition disappears. -/
lemma Rebalanced.exists_get? (h : Rebalanced cfg c now x y) {pk : PartitionKey} {row : PartitionRow}
    (hrow : x.db.partitions.get? pk = some row) : ∃ row', y.db.partitions.get? pk = some row' := by
  cases hmine : mine cfg c row with
  | true =>
    obtain ⟨row', hrow', -⟩ := h.own pk row hrow hmine
    exact ⟨row', hrow'⟩
  | false =>
    rcases h.other pk row hrow hmine with hsame | ⟨-, htaken⟩
    · exact ⟨row, hsame⟩
    · exact ⟨_, htaken⟩

/-- Where a partition row comes from. -/
lemma Rebalanced.cases (h : Rebalanced cfg c now x y) {pk : PartitionKey} {row' : PartitionRow}
    (hrow' : y.db.partitions.get? pk = some row') :
    ∃ row, x.db.partitions.get? pk = some row ∧
      (row' = row ∧ mine cfg c row = false ∨ row'.owner = c.name ∨ row'.owner = "") := by
  cases hrow : x.db.partitions.get? pk with
  | none =>
    rw [h.absent pk hrow] at hrow'
    cases hrow'
  | some row =>
    refine ⟨row, rfl, ?_⟩
    cases hmine : mine cfg c row with
    | true =>
      obtain ⟨row₂, hrow₂, ho⟩ := h.own pk row hrow hmine
      rw [hrow', some.injEq] at hrow₂
      rw [hrow₂]
      exact .inr ho
    | false =>
      rcases h.other pk row hrow hmine with hsame | ⟨-, htaken⟩
      · exact .inl ⟨some.inj (hrow'.symm.trans hsame), rfl⟩
      · rw [htaken, some.injEq] at hrow'
        rw [← hrow']
        exact .inr (.inl rfl)

section Whole

variable {cfg : Config} {c : Owner} {sched : Sched} {x y z : Solo}

variable {expires : ℤ} {row : PartitionRow}

/-- Partitions of others stay as they are. -/
lemma refreshed_of_not_mine (h : mine cfg c row = false) :
    refreshed cfg c expires row = row := by
  rw [refreshed, h, if_neg Bool.false_ne_true]

/-- What drains is released. -/
lemma refreshed_of_draining (h : mine cfg c row = true)
    (hd : row.draining = true) : refreshed cfg c expires row = giveUp row := by
  rw [refreshed, if_pos h, if_pos hd]

/-- What does not drain is renewed. -/
lemma refreshed_of_active (h : mine cfg c row = true) (hd : row.draining = false) :
    refreshed cfg c expires row = { row with leaseExpiresMs := expires } := by
  rw [refreshed, if_pos h, hd, if_neg Bool.false_ne_true]

/-- What is given up is not the consumer's any more. -/
lemma mine_giveUp (row : PartitionRow) : mine cfg c (giveUp row) = false := by
  rw [Bool.eq_false_iff]
  exact fun h => c.name_ne (mine_iff.mp h).2.symm

/-- What is still the consumer's has been renewed. -/
lemma mine_refreshed (h : mine cfg c (refreshed cfg c expires row) = true) :
    mine cfg c row = true ∧ row.draining = false ∧
      refreshed cfg c expires row = { row with leaseExpiresMs := expires } := by
  cases hmine : mine cfg c row with
  | false =>
    rw [refreshed_of_not_mine hmine, hmine] at h
    cases h
  | true =>
    by_cases hd : row.draining = true
    · rw [refreshed_of_draining hmine hd, mine_giveUp] at h
      cases h
    · have hnot : row.draining = false := Bool.eq_false_iff.mpr hd
      exact ⟨rfl, hnot, refreshed_of_active hmine hnot⟩

/-- Renewing and releasing, and then moving towards the share. -/
lemma rebalanced_of_balanced {now : Time} (hin : x.db.Inside cfg.queue)
    (hz : ∀ pk, z.db.partitions.get? pk = (x.db.partitions.get? pk).map
      (refreshed cfg c (Time.unixMilli (now + cfg.leaseTTL))))
    (hdisp : z.db.dispatchers = (x.db.enrolled cfg c now).dispatchers)
    (hstop : z.memory.stopping = x.memory.stopping) (hseed : z.memory.seeded = x.memory.seeded)
    (h : Balanced cfg c now (share ((x.db.enrolled cfg c now).countMembers cfg.queue)) z y) :
    Rebalanced cfg c now x y where
  stopping := h.stays.stopping.trans hstop
  seeded := h.stays.seeded.trans hseed
  idle := h.idle
  dispatchers := h.stays.dispatchers.trans hdisp
  absent pk hpk := h.absent pk (by rw [hz, hpk, map_none])
  other pk row hrow hmine := by
    refine h.other pk row ?_ hmine
    rw [hz, hrow, map_some, refreshed_of_not_mine hmine]
  own pk row hrow hmine := by
    have hzrow := (hz pk).trans (by rw [hrow, map_some])
    cases hd : row.draining with
    | true =>
      rw [refreshed_of_draining hmine hd] at hzrow
      rcases h.other pk _ hzrow (mine_giveUp row) with hsame | ⟨-, htaken⟩
      · exact ⟨_, hsame, .inr rfl⟩
      · exact ⟨_, htaken, .inl rfl⟩
    | false =>
      rw [refreshed_of_active hmine hd] at hzrow
      rcases h.own pk _ hzrow hmine with hsame | ⟨-, hgone⟩
      · exact ⟨_, hsame, .inl (mine_iff.mp hmine).2⟩
      · exact ⟨_, hgone, .inr rfl⟩
  kept hle pk row hrow hmine hd := by
    have hzrow := (hz pk).trans (by rw [hrow, map_some])
    rw [refreshed_of_active hmine hd] at hzrow
    rcases h.own pk _ hzrow hmine with hsame | ⟨hlt, -⟩
    · exact hsame
    · -- releasing only takes partitions away, so there cannot be too many
      have hsub : z.db.ownedBy cfg.queue c.name ⊆ x.db.ownedBy cfg.queue c.name := by
        intro p hp
        obtain ⟨row', hrow', ho⟩ := (mem_ownedBy (hin.of_get? hz)).mp hp
        rw [hz] at hrow'
        obtain ⟨row₀, hrow₀, rfl⟩ := map_eq_some_iff.mp hrow'
        have hkey : (refreshed cfg c (Time.unixMilli (now + cfg.leaseTTL)) row₀).key.queue =
            cfg.queue := by
          rw [key_of_get? ((hz _).trans (by rw [hrow₀, map_some]))]
        have hmine₀ := (mine_refreshed (mine_iff.mpr ⟨hkey, ho⟩)).1
        exact (mem_ownedBy hin).mpr ⟨row₀, hrow₀, (mine_iff.mp hmine₀).2⟩
      have hcard := card_le_card hsub
      omega
  held pk row hrow hmine := by
    cases hzrow : z.db.partitions.get? pk with
    | none =>
      rw [h.absent pk hzrow] at hrow
      cases hrow
    | some row' =>
      cases hmine' : mine cfg c row' with
      | true =>
        rcases h.own pk row' hzrow hmine' with hsame | ⟨-, hgone⟩
        · rw [hsame, some.injEq] at hrow
          subst hrow
          rw [hz] at hzrow
          obtain ⟨row₀, -, rfl⟩ := map_eq_some_iff.mp hzrow
          obtain ⟨-, hd, heq⟩ := mine_refreshed hmine
          rw [heq]
          exact ⟨hd, rfl⟩
        · rw [hgone, some.injEq] at hrow
          rw [← hrow, mine_giveUp] at hmine
          cases hmine
      | false =>
        rcases h.other pk row' hzrow hmine' with hsame | ⟨-, htaken⟩
        · rw [hsame, some.injEq] at hrow
          rw [← hrow, hmine'] at hmine
          cases hmine
        · rw [htaken, some.injEq] at hrow
          rw [← hrow]
          exact ⟨rfl, rfl⟩
  load_le := h.load_le
  fills := h.fills

/-- Releasing after renewing is refreshing. -/
lemma settled_renewed (expires : ℤ) (row : PartitionRow) :
    settled cfg c (if mine cfg c row then { row with leaseExpiresMs := expires } else row) =
      refreshed cfg c expires row := by
  cases hmine : mine cfg c row with
  | false =>
    rw [refreshed_of_not_mine hmine, if_neg Bool.false_ne_true, settled_of_not_mine hmine]
  | true =>
    have hmine' : mine cfg c { row with leaseExpiresMs := expires } = true := hmine
    rw [refreshed, if_pos hmine, if_pos rfl, settled, hmine', Bool.true_and]
    rfl

/-- `Heartbeat` enrols the consumer, counts the members and renews the leases. -/
lemma ends_storeHeartbeat {Q : Option (List Lease × ℕ) → Solo → Prop} (now : Time)
    (h : Q (some (((x.db.enrolled cfg c now).renewLeases cfg.queue c.name
        (Time.unixMilli (now + cfg.leaseTTL))).1, (x.db.enrolled cfg c now).countMembers cfg.queue))
      ⟨x.memory, ((x.db.enrolled cfg c now).renewLeases cfg.queue c.name
        (Time.unixMilli (now + cfg.leaseTTL))).2⟩) :
    (storeHeartbeat cfg.queue c now cfg.leaseTTL true).Ends (Solo.exec sched) Q x := by
  refine .bind (ends_call rfl (.pure ?_))
  exact ends_call rfl (ends_call rfl (ends_call rfl (.pure h)))

/-- The part of `Rebalance` after the work on requests. -/
lemma ends_renewAndBalance (hstop : x.memory.stopping = false) (hidle : x.memory.Idle)
    (hin : x.db.Inside cfg.queue) (httl : 0 ≤ cfg.leaseTTL)
    (hlock : ∀ pk, sched.lockedPartition pk = false) (now : Time) :
    (renewAndBalance cfg c now).Ends (Solo.exec sched) (fun _ y => Rebalanced cfg c now x y) x:= by
  have hagrees := @agrees_syncLeases cfg c x.memory (x.db.enrolled cfg c now)
    (Time.unixMilli (now + cfg.leaseTTL)) now
  have hidle₁ := idle_syncLeases hidle ((x.db.enrolled cfg c now).nodup_renewLeases c.name cfg.queue
    (Time.unixMilli (now + cfg.leaseTTL))) now
  refine ends_critical ?_
  show ((storeHeartbeat cfg.queue c now cfg.leaseTTL (!x.memory.stopping)) >>= _).Ends _ _ x
  rw [hstop]
  refine .bind (ends_storeHeartbeat now (ends_critical (.bind ((ends_resetStale now _).weaken ?_))))
  rintro ok y₁ ⟨rfl, hbeside⟩
  have hidle₂ : y₁.memory.Idle := by
    unfold Consumer.Idle
    rw [hbeside.leases]
    exact hidle₁
  refine .bind ((ends_releaseDrained (hagrees.beside hbeside) hidle₂ now).weaken ?_)
  rintro ok z ⟨rfl, hstays, hagreesz, hidlez, hsettled⟩
  have hz : ∀ pk, z.db.partitions.get? pk = (x.db.partitions.get? pk).map
      (refreshed cfg c (Time.unixMilli (now + cfg.leaseTTL))) := by
    intro pk
    rw [hsettled, hbeside.partitions]
    refine (congrArg (Option.map (settled cfg c)) (get?_renewed _ _ pk)).trans ?_
    rw [Option.map_map]
    exact map_congr fun row _ => settled_renewed _ row
  have hown : ∀ pk row, z.db.partitions.get? pk = some row → mine cfg c row = true →
      row.draining = false ∧ row.leaseExpiresMs = Time.unixMilli (now + cfg.leaseTTL) := by
    intro pk row hrow hmine
    rw [hz] at hrow
    obtain ⟨row₀, -, rfl⟩ := map_eq_some_iff.mp hrow
    obtain ⟨-, hd, heq⟩ := mine_refreshed hmine
    rw [heq]
    exact ⟨hd, rfl⟩
  have hu : Undrained cfg c z := by
    intro p row hrow ho
    exact (hown _ row hrow (mine_iff.mpr ⟨by rw [key_of_get? hrow], ho⟩)).1
  have hfresh : Fresh cfg c now z := by
    intro pk row hrow hmine
    have hms : now.unixMilli ≤ Time.unixMilli (now + cfg.leaseTTL) :=
      Time.unixMilli_mono (Int.le_add_of_nonneg_right httl)
    rw [Bool.eq_false_iff]
    intro hfree
    rcases (acquirable_iff.mp hfree).2 with hnone | hlapsed
    · exact c.name_ne ((mine_iff.mp hmine).2.symm.trans hnone)
    · rw [(hown pk row hrow hmine).2] at hlapsed
      exact absurd hlapsed (not_lt_of_ge hms)
  have hrunning : (Critical.readStopping.run x.memory).1 = false := hstop
  refine (ends_balance hagreesz hidlez hu (hin.of_get? hz) hfresh httl hlock _).weaken ?_
  intro _ y hy
  rw [hrunning, if_neg Bool.false_ne_true] at hy
  refine rebalanced_of_balanced hin hz ?_ ?_ ?_ hy
  · exact hstays.dispatchers.trans hbeside.dispatchers
  · exact hstays.stopping.trans hbeside.stopping
  · exact hstays.seeded.trans hbeside.seeded

/-- The database once the partitions of the queue have been created. -/
def Solo.seededDb (cfg : Config) (x : Solo) : Database :=
  if x.memory.seeded then x.db else x.db.ensurePartitions cfg.queue

/-- The part of `Rebalance` between `Lock` and `Unlock`. -/
lemma ends_rebalanceBody (hstop : x.memory.stopping = false) (hidle : x.memory.Idle)
    (hin : (x.seededDb cfg).Inside cfg.queue) (httl : 0 ≤ cfg.leaseTTL)
    (hlock : ∀ pk, sched.lockedPartition pk = false) (now : Time) :
    (rebalanceBody cfg c now).Ends (Solo.exec sched) (fun _ y => ∃ x₁ : Solo,
      x₁.db.partitions = (x.seededDb cfg).partitions ∧ x₁.db.dispatchers = x.db.dispatchers ∧
        x₁.memory.stopping = false ∧ x₁.memory.seeded = true ∧ Rebalanced cfg c now x₁ y) x := by
  obtain ⟨x₀, hx₀⟩ : ∃ x₀ : Solo, x₀ = ⟨{ x.memory with seeded := true }, x.seededDb cfg⟩ :=
    ⟨_, rfl⟩
  have hseed : (ensureSeeded cfg).Ends (Solo.exec sched) (fun ok y => ok = true ∧ y = x₀) x := by
    refine ends_critical ?_
    cases hs : x.memory.seeded with
    | true =>
      have hmem : { x.memory with seeded := true } = x.memory := by rw [← hs]
      rw [show (Critical.readSeeded.run x.memory).1 = true from hs]
      refine .pure ⟨rfl, ?_⟩
      rw [hx₀, hmem, Solo.seededDb, hs, if_pos rfl]
      rfl
    | false =>
      rw [show (Critical.readSeeded.run x.memory).1 = false from hs]
      refine ends_call rfl (ends_critical (.pure ⟨rfl, ?_⟩))
      rw [hx₀, Solo.seededDb, hs, if_neg Bool.false_ne_true]
      rfl
  refine .bind (hseed.weaken ?_)
  rintro ok y₀ ⟨rfl, rfl⟩
  refine .bind ((Prog.Ends.of_always (fun i hi => exec_aside sched i hi.2)
    (aside_undispatchOrphans cfg.queue) (.refl y₀)).weaken fun undispatched y₁ h₁ => ?_)
  refine .bind ((Prog.Ends.of_always (fun i hi => exec_aside sched i hi.2)
    aside_reconcileInFlight h₁).weaken fun reconciled y₂ h₂ => ?_)
  have hpart : y₂.db.partitions = (x.seededDb cfg).partitions := h₂.partitions.trans (by rw [hx₀])
  have hdisp : y₂.db.dispatchers = x.db.dispatchers := by
    rw [h₂.dispatchers, hx₀]
    unfold Solo.seededDb
    split
    · rfl
    · rw [ensurePartitions]
  have hstop₂ : y₂.memory.stopping = false := by rw [h₂.stopping, hx₀, hstop]
  have hseed₂ : y₂.memory.seeded = true := by rw [h₂.seeded, hx₀]
  have hidle₂ : y₂.memory.Idle := by
    unfold Consumer.Idle
    rw [h₂.leases, hx₀]
    exact hidle
  refine .bind ((ends_renewAndBalance hstop₂ hidle₂ (hin.congr hpart) httl hlock now).weaken
    fun _ y hy => ?_)
  exact .pure ⟨y₂, hpart, hdisp, hstop₂, hseed₂, hy⟩

end Whole

end LlmdAsync.SqlQueue
