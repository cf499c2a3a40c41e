import LlmdAsync.SqlQueue.Created

/-!
# Runs of a consumer by itself

A consumer runs alone, but its statements may fail, with or without effect (`Solo.Moves`).  Its
lease map is exact if it says of every partition what the database says (`Agrees`).  `Heartbeat` and
`syncLeases` make it so from any state.

From there on `Rebalance` marks and releases partitions in the map and in the database alike.
`InSync` collects what it needs to know: the map is exact, the counts in it are the ones from
before, and the leases that have just been renewed are not up for acquisition.
-/

namespace LlmdAsync.SqlQueue

/-! ### Alone, with failing statements -/

/-- An action of a thread while nobody else is at work, so that no partition is locked. -/
def Cluster.Alone (t : Thread) (i : Action) (σ : Cluster) (r : i.Reply) (σ' : Cluster) : Prop :=
  ∃ ch : Choice, (∀ pk, ch.sched.lockedPartition pk = false) ∧
    Cluster.exec t i ch σ = some (r, σ')

/-- What can be seen of it in the memory of the consumer and the database. -/
def Solo.Moves : (i : Action) → Solo → i.Reply → Solo → Prop
  | .critical s, x, r, y => r = (s.run x.memory).1 ∧ y = ⟨(s.run x.memory).2, x.db⟩
  | .call s, x, r, y => r = none ∧ y = x ∨
      ∃ sched rep db', (∀ pk, sched.lockedPartition pk = false) ∧
        x.db.exec sched s = some (rep, db') ∧ y = ⟨x.memory, db'⟩ ∧ (r = none ∨ r = some rep)
  | .lock _, x, _, y => y = x
  | .unlock, x, _, y => y = x

lemma Cluster.Alone.moves {t : Thread} (i : Action) (σ : Cluster) (r : i.Reply) (σ' : Cluster)
    (h : Cluster.Alone t i σ r σ') : Solo.Moves i (σ.solo t.consumer) r (σ'.solo t.consumer) := by
  obtain ⟨ch, hlock, hexec⟩ := h
  cases i with
  | lock op =>
    obtain ⟨-, rfl⟩ := exec_lock hexec
    rfl
  | unlock =>
    obtain rfl := exec_unlock hexec
    rfl
  | critical s =>
    obtain ⟨rfl, rfl⟩ := exec_critical hexec
    refine ⟨rfl, ?_⟩
    rw [solo, memory_afterCritical_self]
    rfl
  | call s =>
    rcases exec_call hexec with ⟨rfl, rfl, -⟩ | ⟨rep, w, hw, rfl, hr⟩
    · exact .inl ⟨rfl, rfl⟩
    · refine .inr ⟨ch.sched, rep, w.db, hlock, (World.exec_eq_some.mp hw).1, rfl, ?_⟩
      rcases hr with ⟨hr, -⟩ | ⟨hr, -⟩
      · exact .inr hr
      · exact .inl hr

/-- An action with its answer and the state it found. -/
abbrev Entry := Solo × Sigma Action.Reply

section Rules

variable {β : Type} {Q : β → List Entry → Solo → Prop} {x : Solo}

lemma ensures_critical {s : Critical} {f : s.Reply → Code β}
    (h : (f (s.run x.memory).1).Ensures Solo.Moves
      (fun b trail => Q b ((x, ⟨.critical s, (s.run x.memory).1⟩) :: trail))
      ⟨(s.run x.memory).2, x.db⟩) :
    (critical s >>= f).Ensures Solo.Moves Q x := by
  refine .step ?_
  rintro r y ⟨rfl, rfl⟩
  exact h

lemma ensures_call {s : Stmt} {f : Option (Reply s) → Code β}
    (hnone : ∀ y, (f none).Ensures Solo.Moves
      (fun b trail => Q b ((x, ⟨.call s, none⟩) :: trail)) y)
    (hsome : ∀ sched rep db', (∀ pk, sched.lockedPartition pk = false) →
      x.db.exec sched s = some (rep, db') → (f (some rep)).Ensures Solo.Moves
        (fun b trail => Q b ((x, ⟨.call s, some rep⟩) :: trail)) ⟨x.memory, db'⟩) :
    (call s >>= f).Ensures Solo.Moves Q x := by
  refine .step ?_
  rintro r y (⟨rfl, -⟩ | ⟨sched, rep, db', hlock, hexec, rfl, rfl | rfl⟩)
  · exact hnone y
  · exact hnone _
  · exact hsome sched rep db' hlock hexec

lemma moves_aside {x : Solo} (i : Action) (hi : i.Aside) (y : Solo) (r : i.Reply) (y' : Solo)
    (hy : x.Beside y) (hmoves : Solo.Moves i y r y') : x.Beside y' := by
  cases i with
  | lock | unlock => cases hi
  | critical s =>
    obtain ⟨-, rfl⟩ := hmoves
    obtain ⟨r', y'', hexec, hy''⟩ := exec_aside .plain (.critical s) hi y hy
    cases hexec
    exact hy''
  | call s =>
    rcases hmoves with ⟨-, rfl⟩ | ⟨sched, rep, db', -, hdb, rfl, -⟩
    · exact hy
    · obtain ⟨r', y'', hexec, hy''⟩ := exec_aside sched (.call s) hi y hy
      have hexec' : Solo.exec sched (.call s) y = some (some rep, ⟨y.memory, db'⟩) := by
        show (y.db.exec sched s).map _ = _
        rw [hdb]
        rfl
      rw [hexec'] at hexec
      cases hexec
      exact hy''

end Rules

/-! ### The picture of the leases -/

/-- A lease with requests in flight is one the consumer had before, with the count it had.  If it
drains, it does so since `now`, or since the time that was recorded before. -/
def Kept (now : Time) (m₀ m : Consumer) : Prop :=
  ∀ p st, m.leases.get? p = some st → 0 < st.inflight →
    ∃ st₀, m₀.leases.get? p = some st₀ ∧ st₀.epoch = st.epoch ∧ st₀.inflight = st.inflight ∧
      (st.draining = true →
        st.drainSince = now ∨ st₀.draining = true ∧ st₀.drainSince = st.drainSince)

/-- What `Rebalance` knows once the leases are in sync. -/
structure InSync (cfg : Config) (c : Owner) (now : Time) (m₀ : Consumer) (x : Solo) : Prop where
  agrees : Agrees cfg c x
  kept : Kept now m₀ x.memory
  inside : x.db.Inside cfg.queue
  created : x.db.Created cfg.queue
  fresh : Fresh cfg c now x

section Picture

variable {cfg : Config} {c : Owner} {now : Time} {m₀ : Consumer} {x y : Solo}

variable {row : PartitionRow} {m : Consumer} {db : Database} {ps : List ℤ}
  {f : PartitionRow → PartitionRow}

lemma InSync.beside (h : InSync cfg c now m₀ x) (hy : x.Beside y) : InSync cfg c now m₀ y := by
  refine ⟨h.agrees.beside hy, ?_, h.inside.congr hy.partitions, h.created.congr hy.partitions, ?_⟩
  · unfold Kept
    rw [hy.leases]
    exact h.kept
  · unfold Fresh
    rw [hy.partitions]
    exact h.fresh

lemma kept_syncLease (m : Consumer) (now : Time) (l : Lease)
    (h : 0 < (m.syncLease now l).inflight) :
    ∃ st₀, m.leases.get? l.partition = some st₀ ∧ st₀.epoch = (m.syncLease now l).epoch ∧
      st₀.inflight = (m.syncLease now l).inflight ∧
      ((m.syncLease now l).draining = true → (m.syncLease now l).drainSince = now ∨
        st₀.draining = true ∧ st₀.drainSince = (m.syncLease now l).drainSince) := by
  obtain ⟨hepoch, hknown, hfresh⟩ := Consumer.syncLease_spec (c := m) now l
  by_cases hl : m.leaseEpoch l.partition = some l.epoch
  · obtain ⟨st, hst, he⟩ := Option.map_eq_some_iff.mp hl
    refine ⟨st, hst, he.trans hepoch.symm, (hknown st hst he).symm, fun hd => ?_⟩
    have hsync : m.syncLease now l = { st with
        drainSince := if l.draining && !st.draining then now else st.drainSince
        draining := l.draining } := by
      unfold Consumer.syncLease
      simp only [hst, if_pos he]
    rw [hsync] at hd ⊢
    change l.draining = true at hd
    cases hst' : st.draining with
    | false =>
      refine .inl (if_pos ?_)
      rw [hd]
      rfl
    | true =>
      refine .inr ⟨rfl, (if_neg ?_).symm⟩
      rw [hd]
      exact Bool.false_ne_true
  · rw [hfresh hl] at h
    exact absurd h (lt_irrefl 0)

lemma inSync_syncLeases {expires : ℤ} (hin : db.Inside cfg.queue) (hcreated : db.Created cfg.queue)
    (hexpires : now.unixMilli ≤ expires) (hm : m.leases = m₀.leases) :
    InSync cfg c now m₀ ⟨m.syncLeases (db.renewLeases cfg.queue c.name expires).1 now,
      (db.renewLeases cfg.queue c.name expires).2⟩ := by
  have hnd := db.nodup_renewLeases c.name cfg.queue expires
  have hget := @get?_renewed cfg c db expires
  refine ⟨agrees_syncLeases m db expires now, fun p st hst hpos => ?_, hin.of_get? hget,
    fun p hp => ?_, fun pk row hrow hmine => ?_⟩
  · obtain ⟨hknown, hnone⟩ := Consumer.get?_leases_syncLeases (c := m) hnd now p
    by_cases hp : p ∈ (db.renewLeases cfg.queue c.name expires).1.map Lease.partition
    · obtain ⟨l, hl, rfl⟩ := List.mem_map.mp hp
      obtain rfl := Option.some.inj (hst.symm.trans (hknown l hl rfl))
      rw [← hm]
      exact kept_syncLease m now l hpos
    · rw [hnone hp] at hst
      cases hst
  · obtain ⟨row, hrow⟩ := hcreated p hp
    exact ⟨_, (hget _).trans (by rw [hrow, Option.map_some])⟩
  · rw [hget] at hrow
    obtain ⟨row₀, hrow₀, rfl⟩ := Option.map_eq_some_iff.mp hrow
    rw [Bool.eq_false_iff]
    intro hfree
    split at hmine
    next hsel =>
      rw [if_pos hsel] at hfree
      rcases (Database.acquirable_iff.mp hfree).2 with hnone | hlapsed
      · exact c.name_ne ((mine_iff.mp hsel).2.symm.trans hnone)
      · exact absurd hlapsed (not_lt_of_ge hexpires)
    next hsel =>
      exact hsel hmine

lemma InSync.touch (h : InSync cfg c now m₀ x) (hagrees : Agrees cfg c ⟨m, db⟩)
    (hdb : ∀ pk, db.partitions.get? pk = (x.db.partitions.get? pk).map (touched cfg c ps f))
    (hf : ∀ row, mine cfg c (f row) = true → Database.acquirable cfg.queue now.unixMilli (f row) =
      Database.acquirable cfg.queue now.unixMilli row)
    (hkept : Kept now m₀ m) : InSync cfg c now m₀ ⟨m, db⟩ := by
  refine ⟨hagrees, hkept, h.inside.of_get? hdb, fun p hp => ?_, fun pk row' hrow' hmine => ?_⟩
  · obtain ⟨row, hrow⟩ := h.created p hp
    exact ⟨_, (hdb _).trans (by rw [hrow, Option.map_some])⟩
  · rw [hdb] at hrow'
    obtain ⟨row, hrow, rfl⟩ := Option.map_eq_some_iff.mp hrow'
    unfold touched at hmine ⊢
    split
    next hsel =>
      rw [if_pos hsel] at hmine
      rw [hf row hmine]
      exact h.fresh pk row hrow (Bool.and_eq_true _ _ ▸ hsel).1
    next hsel =>
      rw [if_neg hsel] at hmine
      exact h.fresh pk row hrow hmine

lemma InSync.release (h : InSync cfg c now m₀ x) (hdb : ∀ pk, db.partitions.get? pk =
      (x.db.partitions.get? pk).map (touched cfg c ps Database.giveUp)) :
    InSync cfg c now m₀ ⟨x.memory.dropLeases ps, db⟩ := by
  refine h.touch (h.agrees.release hdb) hdb (fun row hmine => ?_) (fun p st hst => ?_)
  · rw [mine_giveUp] at hmine
    cases hmine
  · rw [get?_dropLeases] at hst
    split at hst
    · cases hst
    · exact h.kept p st hst

lemma InSync.mark (h : InSync cfg c now m₀ x) {b : Bool} {g : PartitionState → PartitionState}
    (hdb : ∀ pk, db.partitions.get? pk = (x.db.partitions.get? pk).map
      (touched cfg c ps fun row => { row with draining := b }))
    (hm : ∀ p, m.leases.get? p = (x.memory.leases.get? p).map fun st =>
      if st.partition ∈ ps then g st else st)
    (hg : ∀ st, (g st).epoch = st.epoch ∧ (g st).draining = b ∧ (g st).inflight = st.inflight)
    (hsince : ∀ st, b = true → (g st).drainSince = now) : InSync cfg c now m₀ ⟨m, db⟩ := by
  refine h.touch (h.agrees.mark hdb hm fun st => ⟨(hg st).1, (hg st).2.1⟩) hdb (fun _ _ => rfl)
    (fun p st' hst' hpos => ?_)
  rw [hm] at hst'
  obtain ⟨st, hst, rfl⟩ := Option.map_eq_some_iff.mp hst'
  split at hpos
  next hp =>
    rw [(hg st).2.2] at hpos
    obtain ⟨st₀, hst₀, hepoch, hcount, -⟩ := h.kept p st hst hpos
    rw [if_pos hp]
    refine ⟨st₀, hst₀, hepoch.trans (hg st).1.symm, hcount.trans (hg st).2.2.symm, fun hd => ?_⟩
    exact .inl (hsince st ((hg st).2.1.symm.trans hd))
  next hp =>
    rw [if_neg hp]
    exact h.kept p st hst hpos

end Picture

end LlmdAsync.SqlQueue
