import LlmdAsync.Foundation.Alone
import LlmdAsync.SqlQueue.LeaseBooks
import LlmdAsync.SqlQueue.Ownership

/-!
# One `Rebalance`, alone

What `Rebalance` does when it runs from beginning to end with nobody else at work, no store call
fails, the consumer is not stopping and nothing is in flight.  Its state is then the memory of the
consumer and the database (`Solo`).

`syncLeases` makes the lease map exact (`Synced`), and from then on every step can be read off the
partition rows.  This module follows the code up to the release of the draining partitions, which
comes at once.
-/

namespace LlmdAsync.SqlQueue

open Option Table Database Consumer

/-- What a consumer works on while it runs alone. -/
structure Solo where
  memory : Consumer
  db : Database

/-- What the actions between `Lock` and `Unlock` do then. -/
def Solo.exec (sched : Sched) : (i : Action) → Solo → Option (i.Reply × Solo)
  | .critical s, x => some ((s.run x.memory).1, ⟨(s.run x.memory).2, x.db⟩)
  | .call s, x => (x.db.exec sched s).map fun rd => (some rd.1, ⟨x.memory, rd.2⟩)
  | .lock _, _ => none
  | .unlock, _ => none

section Rules

variable {sched : Sched} {β : Type} {Q : β → Solo → Prop} {x : Solo}

/-- A statement that succeeds. -/
lemma ends_call {s : Stmt} {f : Option (Reply s) → Code β} {rep : Reply s} {db' : Database}
    (hexec : x.db.exec sched s = some (rep, db'))
    (h : (f (some rep)).Ends (Solo.exec sched) Q ⟨x.memory, db'⟩) :
    (call s >>= f).Ends (Solo.exec sched) Q x := by
  refine Prog.Ends.step ?_ h
  show (x.db.exec sched s).map _ = _
  rw [hexec]
  rfl

/-- A critical section. -/
lemma ends_critical {s : Critical} {f : s.Reply → Code β}
    (h : (f (s.run x.memory).1).Ends (Solo.exec sched) Q ⟨(s.run x.memory).2, x.db⟩) :
    (critical s >>= f).Ends (Solo.exec sched) Q x :=
  Prog.Ends.step rfl h

end Rules

/-! ### Work on requests -/

/-- The members are the same, and so are the flags of the consumer. -/
structure Solo.Stays (x y : Solo) : Prop where
  dispatchers : y.db.dispatchers = x.db.dispatchers
  stopping : y.memory.stopping = x.memory.stopping
  seeded : y.memory.seeded = x.memory.seeded

/-- Partitions and leases are the same as well. -/
structure Solo.Beside (x y : Solo) : Prop extends Solo.Stays x y where
  partitions : y.db.partitions = x.db.partitions
  leases : y.memory.leases = x.memory.leases

lemma Solo.Beside.refl (x : Solo) : x.Beside x := ⟨⟨rfl, rfl, rfl⟩, rfl, rfl⟩

/-- `forgetOrphans` changes nothing but the orphans. -/
lemma Consumer.forgetOrphans_eq (c : Consumer) (stamps : List Stamp) :
    ∃ o, c.forgetOrphans stamps = { c with orphans := o } := by
  induction stamps generalizing c with
  | nil => exact ⟨c.orphans, rfl⟩
  | cons stamp stamps ih =>
    obtain ⟨o, ho⟩ : ∃ o, c.forgetOne stamp = { c with orphans := o } := by
      unfold forgetOne
      split
      · split
        · exact ⟨_, rfl⟩
        · exact ⟨c.orphans, rfl⟩
      · exact ⟨c.orphans, rfl⟩
    obtain ⟨o', ho'⟩ := ih { c with orphans := o }
    refine ⟨o', ?_⟩
    show (c.forgetOne stamp).forgetOrphans stamps = _
    rw [ho, ho']

/-- Work on requests leaves partitions, leases, members and flags as they are. -/
lemma exec_aside (sched : Sched) {x : Solo} (i : Action) (hi : i.Aside) (y : Solo)
    (hy : x.Beside y) : ∃ r y', Solo.exec sched i y = some (r, y') ∧ x.Beside y' := by
  obtain ⟨⟨hd, hstop, hseed⟩, hp, hl⟩ := hy
  cases i with
  | lock | unlock => cases hi
  | call s =>
    cases s with
    | undispatch | inFlight | resetStale => exact ⟨_, _, rfl, ⟨hd, hstop, hseed⟩, hp, hl⟩
    | _ => cases hi
  | critical s =>
    cases s with
    | forgetOrphans stamps =>
      obtain ⟨o, ho⟩ := y.memory.forgetOrphans_eq stamps
      have hrun : ((Critical.forgetOrphans stamps).run y.memory).2 =
          { y.memory with orphans := o } := ho
      refine ⟨_, _, rfl, ⟨hd, ?_, ?_⟩, hp, ?_⟩
      · rw [hrun]
        exact hstop
      · rw [hrun]
        exact hseed
      · rw [hrun]
        exact hl
    | readOrphans | readReconcile | untracked | clearReconcile | beat =>
      exact ⟨_, _, rfl, ⟨hd, hstop, hseed⟩, hp, hl⟩
    | _ => cases hi

section Aside

variable {cfg : Config} {owner : Owner}

/-- `ResetStale` succeeds, and is work on requests. -/
lemma ends_storeResetStale {sched : Sched} (only : Option (List ℤ)) {x y : Solo} (h : x.Beside y) :
    (storeResetStale cfg.queue owner only).Ends (Solo.exec sched)
      (fun ok y' => ok = true ∧ x.Beside y') y := by
  unfold storeResetStale
  split
  · exact .pure ⟨rfl, h⟩
  · obtain ⟨r, y', hexec, hy'⟩ := exec_aside sched
      (.call (.resetStale cfg.queue owner only)) rfl y h
    cases hexec
    exact ends_call rfl (.pure ⟨rfl, hy'⟩)

/-- `resetStale` succeeds, and is work on requests. -/
lemma ends_resetStale {sched : Sched} (now : Time) (x : Solo) :
    (resetStale cfg owner now).Ends (Solo.exec sched) (fun ok y => ok = true ∧ x.Beside y) x:= by
  obtain ⟨r, y, hexec, hy⟩ := exec_aside sched (.critical (.beat now cfg.leaseTTL)) rfl x
    (.refl x)
  cases hexec
  exact ends_critical (ends_storeResetStale _ hy)

end Aside

/-! ### The picture of the leases -/

/-- The lease map shows the partitions the consumer owns and which of them drain, and nothing is in
flight. -/
structure Synced (cfg : Config) (c : Owner) (x : Solo) : Prop where
  known : ∀ p d, (∃ st, x.memory.leases.get? p = some st ∧ st.draining = d) ↔
    ∃ row, x.db.partitions.get? ⟨cfg.queue, p⟩ = some row ∧ row.owner = c.name ∧ row.draining = d
  idle : ∀ p st, x.memory.leases.get? p = some st → st.inflight = 0

/-- Nothing is in flight. -/
def Consumer.Idle (m : Consumer) : Prop := ∀ p st, m.leases.get? p = some st → st.inflight = 0

/-- The partition is one of the consumer's. -/
def mine (cfg : Config) (c : Owner) (row : PartitionRow) : Bool :=
  row.key.queue = cfg.queue && row.owner = c.name

/-- The queue and the owner of such a partition. -/
lemma mine_iff {cfg : Config} {c : Owner} {row : PartitionRow} :
    mine cfg c row = true ↔ row.key.queue = cfg.queue ∧ row.owner = c.name := by
  rw [mine, Bool.and_eq_true, decide_eq_true_eq, decide_eq_true_eq]

/-- The epoch and the draining flag of a partition, if the consumer owns it. -/
def leaseView (c : Owner) (row : Option PartitionRow) : Option (ℤ × Bool) :=
  (row.filter fun row => row.owner = c.name).map fun row => (row.epoch, row.draining)

/-- What is seen of a partition of the consumer. -/
lemma leaseView_of_owner {c : Owner} {row : PartitionRow} (h : row.owner = c.name) :
    leaseView c (some row) = some (row.epoch, row.draining) := by
  simp [leaseView, h]

/-- Nothing is seen of other partitions. -/
lemma leaseView_of_not_owner {c : Owner} {row : PartitionRow} (h : row.owner ≠ c.name) :
    leaseView c (some row) = none := by
  simp [leaseView, h]

/-- The lease map says of a partition what the database says, if the consumer owns it. -/
def Agrees (cfg : Config) (c : Owner) (x : Solo) : Prop :=
  ∀ p, (x.memory.leases.get? p).map (fun st => (st.epoch, st.draining)) =
    leaseView c (x.db.partitions.get? ⟨cfg.queue, p⟩)

section Picture

variable {cfg : Config} {c : Owner} {sched : Sched} {x y : Solo} {row : PartitionRow} {m : Consumer}
  {db : Database} {ps : List ℤ} {f : PartitionRow → PartitionRow}

/-- A lease is that of a partition of the consumer. -/
lemma Agrees.row_of_lease (h : Agrees cfg c x) {p : ℤ} {st : PartitionState}
    (hst : x.memory.leases.get? p = some st) :
    ∃ row, x.db.partitions.get? ⟨cfg.queue, p⟩ = some row ∧ mine cfg c row = true ∧
      row.epoch = st.epoch ∧ row.draining = st.draining := by
  have hp := h p
  rw [hst, map_some] at hp
  cases hrow : x.db.partitions.get? ⟨cfg.queue, p⟩ with
  | none =>
    rw [hrow] at hp
    cases hp
  | some row =>
    by_cases ho : row.owner = c.name
    · rw [hrow, leaseView_of_owner ho, some.injEq, Prod.mk.injEq] at hp
      exact ⟨row, rfl, mine_iff.mpr ⟨by rw [key_of_get? hrow], ho⟩, hp.1.symm, hp.2.symm⟩
    · rw [hrow, leaseView_of_not_owner ho] at hp
      cases hp

/-- Without a lease, the partition is not the consumer's. -/
lemma Agrees.not_mine (h : Agrees cfg c x) {p : ℤ} (hnone : x.memory.leases.get? p = none)
    (hrow : x.db.partitions.get? ⟨cfg.queue, p⟩ = some row) :
    row.owner ≠ c.name := by
  intro ho
  have hp := h p
  rw [hnone, hrow, leaseView_of_owner ho] at hp
  cases hp

/-- Work on requests keeps the picture exact. -/
lemma Agrees.beside (h : Agrees cfg c x) (hy : x.Beside y) : Agrees cfg c y := by
  unfold Agrees
  rw [hy.leases, hy.partitions]
  exact h

/-- With nothing in flight, an exact picture is in sync. -/
lemma Agrees.synced (h : Agrees cfg c x) (hidle : x.memory.Idle) : Synced cfg c x := by
  refine ⟨fun p d => ⟨?_, ?_⟩, hidle⟩
  · rintro ⟨st, hst, rfl⟩
    obtain ⟨row, hrow, hmine, -, hd⟩ := h.row_of_lease hst
    exact ⟨row, hrow, (mine_iff.mp hmine).2, hd⟩
  · rintro ⟨row, hrow, ho, rfl⟩
    have hp := h p
    rw [hrow, leaseView_of_owner ho] at hp
    obtain ⟨st, hst, hview⟩ := map_eq_some_iff.mp hp
    exact ⟨st, hst, (Prod.mk.inj hview).2⟩

/-- The rows after their leases have been renewed. -/
lemma get?_renewed (db : Database) (expires : ℤ) (pk : PartitionKey) :
    (db.renewLeases cfg.queue c.name expires).2.partitions.get? pk =
      (db.partitions.get? pk).map fun row =>
        if mine cfg c row then { row with leaseExpiresMs := expires } else row :=
  get?_renewLeases cfg.queue c.name expires pk

/-- `syncLeases` makes the picture exact. -/
lemma agrees_syncLeases (m : Consumer) (db : Database) (expires : ℤ) (now : Time) :
    Agrees cfg c ⟨m.syncLeases (db.renewLeases cfg.queue c.name expires).1 now,
      (db.renewLeases cfg.queue c.name expires).2⟩ := by
  have hnd := db.nodup_renewLeases c.name cfg.queue expires
  intro p
  obtain ⟨hknown, hnone⟩ := get?_leases_syncLeases (c := m) hnd now p
  show ((m.syncLeases _ now).leases.get? p).map _ =
    leaseView c ((db.renewLeases cfg.queue c.name expires).2.partitions.get? _)
  rw [get?_renewed]
  by_cases hp : p ∈ (db.renewLeases cfg.queue c.name expires).1.map Lease.partition
  · obtain ⟨l, hl, rfl⟩ := List.mem_map.mp hp
    obtain ⟨row, hrow, ho, hrl⟩ := mem_renewLeases.mp hl
    have hmine : mine cfg c row = true :=
      mine_iff.mpr ⟨by rw [key_of_get? hrow], ho⟩
    have ho' : ({ row with leaseExpiresMs := expires } : PartitionRow).owner = c.name := ho
    rw [hknown l hl rfl, hrow, map_some, map_some, if_pos hmine,
      leaseView_of_owner ho', (syncLease_spec now l).1, ← hrl]
    rfl
  · rw [hnone hp, map_none]
    cases hrow : db.partitions.get? ⟨cfg.queue, p⟩ with
    | none => rfl
    | some row =>
      have hpart : row.key.partition = p := by rw [key_of_get? hrow]
      have ho : row.owner ≠ c.name := by
        refine fun ho => hp (List.mem_map.mpr ⟨row.toLease, mem_renewLeases.mpr
          ⟨row, ?_, ho, rfl⟩, hpart⟩)
        show db.partitions.get? ⟨cfg.queue, row.key.partition⟩ = some row
        rw [hpart]
        exact hrow
      have hother : ¬mine cfg c row = true := fun hmine => ho (mine_iff.mp hmine).2
      rw [map_some, if_neg hother, leaseView_of_not_owner ho]

/-- A lease that is synced has nothing in flight if none had. -/
lemma inflight_syncLease (hidle : m.Idle) (now : Time) (l : Lease) :
    (m.syncLease now l).inflight = 0 := by
  obtain ⟨-, hknown, hfresh⟩ := syncLease_spec (c := m) now l
  by_cases hl : m.leaseEpoch l.partition = some l.epoch
  · obtain ⟨st, hst, he⟩ := map_eq_some_iff.mp hl
    rw [hknown st hst he]
    exact hidle _ st hst
  · exact hfresh hl

/-- After `syncLeases`, still nothing is in flight. -/
lemma idle_syncLeases (hidle : m.Idle) {held : List Lease}
    (hnd : (held.map Lease.partition).Nodup) (now : Time) : (m.syncLeases held now).Idle := by
  intro p st hst
  obtain ⟨hin, hout⟩ := get?_leases_syncLeases (c := m) hnd now p
  by_cases hp : p ∈ held.map Lease.partition
  · obtain ⟨l, hl, rfl⟩ := List.mem_map.mp hp
    rw [some.inj (hst.symm.trans (hin l hl rfl))]
    exact inflight_syncLease hidle now l
  · rw [hout hp] at hst
    cases hst

/-- What a statement on some of the consumer's partitions makes of a row. -/
def touched (cfg : Config) (c : Owner) (ps : List ℤ) (f : PartitionRow → PartitionRow)
    (row : PartitionRow) : PartitionRow :=
  if mine cfg c row && row.key.partition ∈ ps then f row else row

/-- Partitions of the consumer in the list are changed. -/
lemma touched_of_mem (hmine : mine cfg c row = true) (hp : row.key.partition ∈ ps) :
    touched cfg c ps f row = f row := by
  rw [touched, hmine, decide_eq_true hp, Bool.and_self, if_pos rfl]

/-- Partitions outside the list stay. -/
lemma touched_of_not_mem (hp : row.key.partition ∉ ps) : touched cfg c ps f row = row := by
  rw [touched, decide_eq_false hp, Bool.and_false, if_neg Bool.false_ne_true]

/-- Partitions of others stay. -/
lemma touched_of_not_mine (hmine : mine cfg c row = false) : touched cfg c ps f row = row := by
  rw [touched, hmine, Bool.false_and, if_neg Bool.false_ne_true]

/-- The picture stays exact if the map changes as the rows do. -/
lemma Agrees.touch (h : Agrees cfg c x)
    (hdb : ∀ pk, db.partitions.get? pk = (x.db.partitions.get? pk).map (touched cfg c ps f))
    (hout : ∀ p, p ∉ ps ∨ x.memory.leases.get? p = none → m.leases.get? p = x.memory.leases.get? p)
    (hin : ∀ p ∈ ps, ∀ row st, mine cfg c row = true → x.memory.leases.get? p = some st →
      row.epoch = st.epoch → (m.leases.get? p).map (fun st => (st.epoch, st.draining)) =
        leaseView c (some (f row))) : Agrees cfg c ⟨m, db⟩ := by
  intro p
  show (m.leases.get? p).map _ = leaseView c (db.partitions.get? _)
  rw [hdb]
  by_cases hp : p ∈ ps
  · cases hst : x.memory.leases.get? p with
    | some st =>
      obtain ⟨row, hrow, hmine, hepoch, -⟩ := h.row_of_lease hst
      have hpart : row.key.partition ∈ ps := by
        rw [key_of_get? hrow]
        exact hp
      rw [hin p hp row st hmine hst hepoch, hrow, map_some, touched_of_mem hmine hpart]
    | none =>
      -- the partition is nobody's or somebody else's
      rw [hout p (.inr hst), hst, map_none]
      cases hrow : x.db.partitions.get? ⟨cfg.queue, p⟩ with
      | none => rfl
      | some row =>
        have ho := h.not_mine hst hrow
        have hother : mine cfg c row = false := by
          rw [Bool.eq_false_iff]
          exact fun hmine => ho (mine_iff.mp hmine).2
        rw [map_some, touched_of_not_mine hother, leaseView_of_not_owner ho]
  · rw [hout p (.inl hp), h p]
    congr 1
    cases hrow : x.db.partitions.get? ⟨cfg.queue, p⟩ with
    | none => rfl
    | some row =>
      rw [map_some, touched_of_not_mem]
      rw [key_of_get? hrow]
      exact hp

/-- The leases after `dropLeases`. -/
lemma get?_dropLeases (m : Consumer) (ps : List ℤ) (p : ℤ) :
    (m.dropLeases ps).leases.get? p = if p ∈ ps then none else m.leases.get? p :=
  get?_foldl_erase ps m.leases p

/-- The leases after `drain`. -/
lemma get?_drain (m : Consumer) (ps : List ℤ) (now : Time) (p : ℤ) :
    (m.drain ps now).leases.get? p = (m.leases.get? p).map fun st =>
      if st.partition ∈ ps then { st with draining := true, drainSince := now } else st := by
  rw [drain, get?_map]

/-- After `dropLeases`, still nothing is in flight. -/
lemma idle_dropLeases (hidle : m.Idle) (ps : List ℤ) : (m.dropLeases ps).Idle := by
  intro p st hst
  rw [get?_dropLeases] at hst
  split at hst
  · cases hst
  · exact hidle p st hst

/-- Releasing partitions keeps the picture exact. -/
lemma Agrees.release (h : Agrees cfg c x) (hdb : ∀ pk, db.partitions.get? pk =
      (x.db.partitions.get? pk).map (touched cfg c ps giveUp)) :
    Agrees cfg c ⟨x.memory.dropLeases ps, db⟩ := by
  refine h.touch hdb (fun p hp => ?_) (fun p hp row st _ _ _ => ?_)
  · rw [get?_dropLeases]
    rcases hp with hp | hp
    · rw [if_neg hp]
    · rw [hp, ite_self]
  · have hgone : (giveUp row).owner ≠ c.name := fun ho => c.name_ne ho.symm
    rw [get?_dropLeases, if_pos hp, leaseView_of_not_owner hgone]
    rfl

/-- Marking partitions keeps the picture exact. -/
lemma Agrees.mark (h : Agrees cfg c x) {b : Bool} {g : PartitionState → PartitionState}
    (hdb : ∀ pk, db.partitions.get? pk = (x.db.partitions.get? pk).map
      (touched cfg c ps fun row => { row with draining := b }))
    (hm : ∀ p, m.leases.get? p = (x.memory.leases.get? p).map fun st =>
      if st.partition ∈ ps then g st else st)
    (hg : ∀ st, (g st).epoch = st.epoch ∧ (g st).draining = b) : Agrees cfg c ⟨m, db⟩ := by
  have hpart : ∀ {p st}, x.memory.leases.get? p = some st → st.partition = p :=
    fun hst => key_of_get? hst
  refine h.touch hdb (fun p hp => ?_) (fun p hp row st hmine hst hepoch => ?_)
  · rw [hm]
    cases hst : x.memory.leases.get? p with
    | none => rfl
    | some st =>
      rcases hp with hp | hp
      · rw [map_some, if_neg]
        rw [hpart hst]
        exact hp
      · rw [hp] at hst
        cases hst
  · have ho : ({ row with draining := b } : PartitionRow).owner = c.name :=
      (mine_iff.mp hmine).2
    rw [hm, hst, map_some, map_some, if_pos, leaseView_of_owner ho, (hg st).1, (hg st).2, hepoch]
    rw [hpart hst]
    exact hp

/-- `ReleasePartitions` succeeds. -/
lemma ends_storeReleasePartitions (ps : List ℤ) :
    (storeReleasePartitions cfg.queue c ps).Ends (Solo.exec sched) (fun ok y =>
      ok = true ∧ y.memory = x.memory ∧ y.db.dispatchers = x.db.dispatchers ∧
        ∀ pk, y.db.partitions.get? pk = (x.db.partitions.get? pk).map fun row =>
          if mine cfg c row && row.key.partition ∈ ps then giveUp row else row) x := by
  unfold storeReleasePartitions
  split
  next hps =>
    refine .pure ⟨rfl, rfl, rfl, fun pk => ?_⟩
    rw [hps]
    simp
  · exact ends_call rfl (.pure ⟨rfl, rfl, rfl, get?_releasePartitions _ _ ps⟩)

/-- `SetDraining` succeeds. -/
lemma ends_storeSetDraining (ps : List ℤ) (draining : Bool) :
    (storeSetDraining cfg.queue c ps draining).Ends (Solo.exec sched) (fun ok y =>
      ok = true ∧ y.memory = x.memory ∧ y.db.dispatchers = x.db.dispatchers ∧
        ∀ pk, y.db.partitions.get? pk = (x.db.partitions.get? pk).map fun row =>
          if mine cfg c row && row.key.partition ∈ ps then { row with draining := draining }
          else row) x := by
  unfold storeSetDraining
  split
  next hps =>
    refine .pure ⟨rfl, rfl, rfl, fun pk => ?_⟩
    rw [hps]
    simp
  · exact ends_call rfl (.pure ⟨rfl, rfl, rfl, get?_setDraining _ _ ps draining⟩)

/-- What releasing the drained partitions makes of a row. -/
def settled (cfg : Config) (c : Owner) (row : PartitionRow) : PartitionRow :=
  if mine cfg c row && row.draining then Database.giveUp row else row

/-- Partitions of others are not released. -/
lemma settled_of_not_mine {row : PartitionRow} (h : mine cfg c row = false) :
    settled cfg c row = row := by
  rw [settled, h, Bool.false_and, if_neg Bool.false_ne_true]

/-- What does not drain is not released. -/
lemma settled_of_not_draining {row : PartitionRow} (h : row.draining = false) :
    settled cfg c row = row := by
  rw [settled, h, Bool.and_false, if_neg Bool.false_ne_true]

/-- With nothing in flight, `releaseDrained` releases all that drains. -/
lemma ends_releaseDrained (h : Agrees cfg c x) (hidle : x.memory.Idle) (now : Time) :
    (releaseDrained cfg c now).Ends (Solo.exec sched) (fun ok y =>
      ok = true ∧ x.Stays y ∧ Agrees cfg c y ∧ y.memory.Idle ∧
        ∀ pk, y.db.partitions.get? pk = (x.db.partitions.get? pk).map (settled cfg c)) x := by
  have hps : ∀ p, p ∈ x.memory.drained now cfg.drainTimeout ↔
      ∃ row, x.db.partitions.get? ⟨cfg.queue, p⟩ = some row ∧ row.owner = c.name ∧
        row.draining = true := by
    intro p
    rw [mem_drained, ← (h.synced hidle).known p true]
    exact ⟨fun ⟨st, hst, hd, _⟩ => ⟨st, hst, hd⟩,
      fun ⟨st, hst, hd⟩ => ⟨st, hst, hd, .inl (hidle p st hst)⟩⟩
  refine ends_critical (.bind ((ends_storeReleasePartitions _).weaken ?_))
  rintro ok ⟨m, db⟩ ⟨rfl, hm, hd, hrows⟩
  have hdb : ∀ pk, db.partitions.get? pk = (x.db.partitions.get? pk).map (settled cfg c) := by
    intro pk
    refine (hrows pk).trans (map_congr fun row hrow => ?_)
    by_cases hmine : mine cfg c row = true
    · obtain ⟨hq, ho⟩ := mine_iff.mp hmine
      have hget : x.db.partitions.get? ⟨cfg.queue, row.key.partition⟩ = some row := by
        rw [← hq]
        exact mem_iff_get?.mp (mem_of_get? hrow)
      have hin : decide (row.key.partition ∈ x.memory.drained now cfg.drainTimeout) =
          row.draining := by
        rw [Bool.eq_iff_iff, decide_eq_true_eq, hps]
        refine ⟨fun ⟨row', hrow', _, hd'⟩ => ?_, fun hd' => ⟨row, hget, ho, hd'⟩⟩
        rw [some.inj (hget.symm.trans hrow')]
        exact hd'
      rw [settled, ← hin]
      rfl
    · rw [Bool.not_eq_true] at hmine
      rw [settled_of_not_mine hmine, hmine, Bool.false_and, if_neg Bool.false_ne_true]
  have hm : m = x.memory := hm
  subst hm
  exact ends_critical (.pure ⟨rfl, ⟨hd, rfl, rfl⟩, h.release hrows, idle_dropLeases hidle _, hdb⟩)

end Picture

end LlmdAsync.SqlQueue
