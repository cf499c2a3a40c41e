import LlmdAsync.SqlQueue.LeasePicture
import LlmdAsync.SqlQueue.Stranded

/-!
# One `Rebalance` reaches the share

`Rebalance` runs alone from any reachable state: requests may be in flight, partitions may drain and
the consumer may be stopping.  Statements may fail, but the call returns without an error.

With the leases in sync, the call has at most as many active partitions as its share.  It has fewer
only if nothing drains any more and no partition is left to acquire (`Grown`).  What it sets
draining has the fewest requests in flight (`Lightest`), and what it releases has none or has been
draining for long enough (`Released`).
-/

namespace LlmdAsync.SqlQueue

open List Option Table Finset Database Cluster Consumer Lease Prod

/-! ### What the call does to partitions -/

/-- The action neither releases partitions nor sets them draining. -/
def Action.Quiet : Action → Prop
  | .call (.releasePartitions ..) => False
  | .call (.setDraining _ _ _ draining) => draining = false
  | _ => True

lemma Action.Aside.quiet {i : Action} (h : i.Aside) : i.Quiet := by
  cases i with
  | lock | unlock => cases h
  | critical s => exact trivial
  | call s =>
    cases s with
    | undispatch | inFlight | resetStale => exact trivial
    | _ => cases h

/-- A partition that is released here drains.  If requests of it are in flight by the count of its
lease, then it has been draining for `drainTimeout`: since `now`, or since the time that has been
recorded in the lease before the call. -/
def Released (cfg : Config) (c : Owner) (now : Time) (m₀ : Consumer) (e : Entry) : Prop :=
  ∀ ps, e.2.1 = .call (.releasePartitions cfg.queue c ps) → ∀ p ∈ ps,
    ∃ st, e.1.memory.leases.get? p = some st ∧ st.draining = true ∧
      (0 < st.inflight → cfg.drainTimeout ≤ now - st.drainSince ∧
        ∃ st₀, m₀.leases.get? p = some st₀ ∧ st₀.epoch = st.epoch ∧ st₀.inflight = st.inflight ∧
          (st.drainSince = now ∨ st₀.draining = true ∧ st₀.drainSince = st.drainSince))

/-- A partition that is set draining here has no more requests in flight than any partition that
is still active at the end. -/
def Lightest (cfg : Config) (c : Owner) (y : Solo) (e : Entry) : Prop :=
  ∀ ps, e.2.1 = .call (.setDraining cfg.queue c ps true) → ∀ p ∈ ps,
    ∀ p' ∈ y.memory.partitionsLocked.1, e.1.memory.inflightOf p ≤ e.1.memory.inflightOf p'

section Steps

variable {cfg : Config} {c : Owner} {now : Time} {m₀ : Consumer} {x y : Solo} {e : Entry}

variable {m : Consumer} {ps : List ℤ} {p : ℤ}

lemma released_of_quiet (h : e.2.1.Quiet) : Released cfg c now m₀ e := by
  intro ps heq
  rw [heq] at h
  exact h.elim

lemma lightest_of_quiet (h : e.2.1.Quiet) : Lightest cfg c y e := by
  intro ps heq
  rw [heq] at h
  cases h

lemma justified_of_quiet (h : e.2.1.Quiet) : Released cfg c now m₀ e ∧ Lightest cfg c y e :=
  ⟨released_of_quiet h, lightest_of_quiet h⟩

/-- `Q` holds whenever the code reports no error. -/
abbrev Attains (p : Code Bool) (Q : List Entry → Solo → Prop) (x : Solo) : Prop :=
  p.Ensures Solo.Moves (fun ok trail y => ok = true → Q trail y) x

section Attains

variable {Q : List Entry → Solo → Prop}

lemma Attains.pure (h : Q [] x) : Attains (Pure.pure true) Q x := Prog.Ensures.pure fun _ => h

lemma Attains.call {s : Stmt} {f : Option (Reply s) → Code Bool} (hf : f none = Pure.pure false)
    (h : ∀ sched rep db', (∀ pk, sched.lockedPartition pk = false) →
      x.db.exec sched s = some (rep, db') →
      Attains (f (some rep)) (fun trail => Q ((x, ⟨.call s, some rep⟩) :: trail))
        ⟨x.memory, db'⟩) : Attains (call s >>= f) Q x := by
  refine ensures_call (fun y => ?_) h
  rw [hf]
  exact .pure nofun

lemma Attains.bind {p : Code Bool} {f : Bool → Code Bool} (hf : f false = Pure.pure false)
    {R : List Entry → Solo → Prop} (hp : Attains p R x)
    (h : ∀ trail y, R trail y → Attains (f true) (fun trail' => Q (trail ++ trail')) y) :
    Attains (p >>= f) Q x := by
  refine Prog.Ensures.bind (hp.weaken fun ok trail y hy => ?_)
  cases ok with
  | true => exact h trail y (hy rfl)
  | false =>
    rw [hf]
    exact .pure nofun

end Attains

lemma attains_touch {s : Stmt} {f : PartitionRow → PartitionRow}
    (hs : ∀ sched rep db', x.db.exec sched s = some (rep, db') → ∀ pk, db'.partitions.get? pk =
      (x.db.partitions.get? pk).map (touched cfg c ps f)) :
    Attains (if ps = [] then pure true else do
      let r ← call s
      pure r.isSome) (fun trail y => (∀ e ∈ trail, e.1 = x ∧ e.2.1 = .call s) ∧
        y.memory = x.memory ∧ ∀ pk, y.db.partitions.get? pk =
          (x.db.partitions.get? pk).map (touched cfg c ps f)) x := by
  split
  next hps =>
    refine .pure ⟨forall_mem_nil _, rfl, fun pk => ?_⟩
    rw [hps, show touched cfg c [] f = id from
      funext fun row => touched_of_not_mem not_mem_nil, Option.map_id, id]
  · refine .call rfl fun sched rep db' _ hexec => .pure ⟨fun e he => ?_, rfl, hs _ _ _ hexec⟩
    rw [List.mem_singleton] at he
    subst he
    exact ⟨rfl, rfl⟩

lemma ensures_aside {β : Type} {p : Code β} (hp : p.Always Action.Aside) :
    p.Ensures Solo.Moves (fun _ trail y => x.Beside y ∧ ∀ e ∈ trail, e.2.1.Quiet) x :=
  (Prog.Ensures.of_always (fun i hi y r y' => moves_aside i hi y r y') hp (.refl x)).weaken
    fun _ _ _ h => ⟨h.1, fun e he => (h.2 e he).quiet⟩

lemma aside_storeResetStale (only : Option (List ℤ)) :
    (storeResetStale cfg.queue c only).Always Action.Aside := always_callUnless (by rfl) _

lemma aside_resetStale (now : Time) : (resetStale cfg c now).Always Action.Aside :=
  .step rfl fun _ => aside_storeResetStale _

lemma attains_storeReleasePartitions (ps : List ℤ) :
    Attains (storeReleasePartitions cfg.queue c ps) (fun trail y =>
      (∀ e ∈ trail, e.1 = x ∧ e.2.1 = .call (.releasePartitions cfg.queue c ps)) ∧
        y.memory = x.memory ∧ ∀ pk, y.db.partitions.get? pk =
          (x.db.partitions.get? pk).map (touched cfg c ps giveUp)) x := by
  refine attains_touch fun sched rep db' hexec => ?_
  cases hexec
  exact get?_releasePartitions cfg.queue c.name ps

lemma attains_storeSetDraining (ps : List ℤ) (b : Bool) :
    Attains (storeSetDraining cfg.queue c ps b) (fun trail y =>
      (∀ e ∈ trail, e.1 = x ∧ e.2.1 = .call (.setDraining cfg.queue c ps b)) ∧
        y.memory = x.memory ∧ ∀ pk, y.db.partitions.get? pk = (x.db.partitions.get? pk).map
          (touched cfg c ps fun row => { row with draining := b })) x := by
  refine attains_touch fun sched rep db' hexec => ?_
  cases hexec
  exact get?_setDraining cfg.queue c.name ps b

lemma mem_active_dropLeases (hps : ∀ p ∈ ps, ∃ st, m.leases.get? p = some st ∧ st.draining = true) :
    p ∈ (m.dropLeases ps).partitionsLocked.1 ↔ p ∈ m.partitionsLocked.1 := by
  rw [mem_active, mem_active, get?_dropLeases]
  split
  next hp =>
    obtain ⟨st, hst, hd⟩ := hps p hp
    constructor
    · rintro ⟨st', hst', -⟩
      cases hst'
    · rintro ⟨st', hst', hd'⟩
      rw [hst, some.injEq] at hst'
      rw [← hst', hd] at hd'
      cases hd'
  · rfl

lemma attains_releaseDrained (h : InSync cfg c now m₀ x) :
    Attains (releaseDrained cfg c now) (fun trail y =>
      (∀ e ∈ trail, Released cfg c now m₀ e ∧ ∀ y, Lightest cfg c y e) ∧ InSync cfg c now m₀ y ∧
        ∀ p, p ∈ y.memory.partitionsLocked.1 ↔ p ∈ x.memory.partitionsLocked.1) x := by
  refine ensures_critical (Attains.bind rfl (attains_storeReleasePartitions _) ?_)
  rintro trail ⟨m, db⟩ ⟨htrail, hm, hdb⟩
  obtain rfl : m = x.memory := hm
  refine ensures_critical (.pure fun _ => ⟨?_, h.release hdb, fun p => ?_⟩)
  · simp only [List.forall_mem_cons, List.forall_mem_append]
    refine ⟨⟨released_of_quiet trivial, fun y => lightest_of_quiet trivial⟩,
      fun e he => ?_, ⟨released_of_quiet trivial, fun y => lightest_of_quiet trivial⟩,
      List.forall_mem_nil _⟩
    obtain ⟨hstate, hact⟩ := htrail e he
    refine ⟨fun ps heq p hp => ?_, fun y ps heq => ?_⟩
    · rw [hact] at heq
      cases heq
      rw [hstate]
      obtain ⟨st, hst, hd, hwhy⟩ := mem_drained.mp hp
      refine ⟨st, hst, hd, fun hpos => ?_⟩
      obtain ⟨st₀, hst₀, hepoch, hcount, hsince⟩ := h.kept p st hst hpos
      refine ⟨hwhy.resolve_left (Nat.pos_iff_ne_zero.mp hpos), st₀, hst₀, hepoch, hcount, ?_⟩
      exact hsince hd
    · rw [hact] at heq
      cases heq
  · refine mem_active_dropLeases fun p hp => ?_
    obtain ⟨st, hst, hd, -⟩ := mem_drained.mp hp
    exact ⟨st, hst, hd⟩

/-! ### Above the share -/

/-- The order of `drainCandidatesLocked` is total. -/
instance (m : Consumer) : Std.Total m.drainBefore where
  total a b := by
    unfold Consumer.drainBefore
    omega

instance (m : Consumer) : IsTrans ℤ m.drainBefore where
  trans a b d := by
    unfold Consumer.drainBefore
    omega

lemma inflightOf_drainCandidates_le (m : Consumer) {active : List ℤ} {n : ℕ} {p' : ℤ}
    (hp : p ∈ m.drainCandidatesLocked active n) (hp' : p' ∈ active)
    (hleft : p' ∉ m.drainCandidatesLocked active n) : m.inflightOf p ≤ m.inflightOf p' := by
  have hsorted := pairwise_insertionSort m.drainBefore active
  have hmem : ∀ q, q ∈ m.drainCandidatesLocked active n ↔
      q ∈ (active.insertionSort m.drainBefore).take n := fun q =>
    (perm_insertionSort _ _).mem_iff
  rw [← take_append_drop n (active.insertionSort m.drainBefore), pairwise_append]
    at hsorted
  have hp'' : p' ∈ (active.insertionSort m.drainBefore).drop n := by
    have hall := mem_insertionSort m.drainBefore |>.mpr hp'
    rw [← take_append_drop n (active.insertionSort m.drainBefore), mem_append] at hall
    exact hall.resolve_left fun h => hleft ((hmem p').mpr h)
  rcases hsorted.2.2 p ((hmem p).mp hp) p' hp'' with hlt | ⟨heq, -⟩
  · exact hlt.le
  · exact heq.le

lemma exists_marked {f : PartitionState → PartitionState} {Q : PartitionState → Prop} :
    (∃ st, (m.leases.get? p).map (fun st => if st.partition ∈ ps then f st else st) = some st ∧
      Q st) ↔ ∃ st, m.leases.get? p = some st ∧ Q (if p ∈ ps then f st else st) := by
  cases hst : m.leases.get? p with
  | none => simp
  | some st =>
    have hpart : st.partition = p := key_of_get? hst
    simp [hpart]

lemma mem_active_drain :
    p ∈ (m.drain ps now).partitionsLocked.1 ↔ p ∈ m.partitionsLocked.1 ∧ p ∉ ps := by
  rw [mem_active, mem_active, get?_drain, exists_marked]
  by_cases hp : p ∈ ps <;> simp [hp]

lemma length_active_eq_card (m : Consumer) :
    m.partitionsLocked.1.length = m.partitionsLocked.1.toFinset.card :=
  (toFinset_card_of_nodup (nodup_active m)).symm

lemma attains_shrink (h : InSync cfg c now m₀ x) {n : ℕ}
    (hn : n ≤ x.memory.partitionsLocked.1.length) :
    Attains (shrink cfg c now x.memory.partitionsLocked.1 n) (fun trail y =>
      (∀ e ∈ trail, Released cfg c now m₀ e ∧ Lightest cfg c y e) ∧ Agrees cfg c y ∧
        y.memory.partitionsLocked.1.length = x.memory.partitionsLocked.1.length - n) x := by
  obtain ⟨hnd, hlen, hsub⟩ := drainCandidates_spec x.memory (nodup_active x.memory) hn
  refine ensures_critical (Attains.bind rfl (attains_storeSetDraining _ true) ?_)
  rintro trail ⟨m, db⟩ ⟨htrail, hm, hdb⟩
  obtain rfl : m = x.memory := hm
  have hready : InSync cfg c now m₀ ⟨x.memory.drain (x.memory.drainCandidatesLocked
      x.memory.partitionsLocked.1 n) now, db⟩ :=
    h.mark (g := fun st => { st with draining := true, drainSince := now }) hdb
      (get?_drain _ _ now) (fun st => ⟨rfl, rfl, rfl⟩) fun st _ => rfl
  refine ensures_critical ((attains_releaseDrained hready).weaken ?_)
  rintro ok trail' y hrel hok
  obtain ⟨htrail', hy, hactive⟩ := hrel hok
  -- what is active in the end was active before and has not been picked
  have hleft : ∀ p, p ∈ y.memory.partitionsLocked.1 ↔ p ∈ x.memory.partitionsLocked.1 ∧
      p ∉ x.memory.drainCandidatesLocked x.memory.partitionsLocked.1 n :=
    fun p => (hactive p).trans mem_active_drain
  refine ⟨?_, hy.agrees, ?_⟩
  · simp only [List.forall_mem_cons, List.forall_mem_append]
    refine ⟨justified_of_quiet trivial, fun e he => ?_, justified_of_quiet trivial,
      fun e he => ⟨(htrail' e he).1, (htrail' e he).2 y⟩⟩
    obtain ⟨hstate, hact⟩ := htrail e he
    refine ⟨fun ps heq => ?_, fun ps heq p hp p' hp' => ?_⟩
    · rw [hact] at heq
      cases heq
    · rw [hact] at heq
      cases heq
      rw [hstate]
      obtain ⟨hbefore, hnot⟩ := (hleft p').mp hp'
      exact inflightOf_drainCandidates_le x.memory hp hbefore hnot
  · have hset : y.memory.partitionsLocked.1.toFinset =
        x.memory.partitionsLocked.1.toFinset \
          (x.memory.drainCandidatesLocked x.memory.partitionsLocked.1 n).toFinset := by
      ext p
      rw [mem_sdiff, List.mem_toFinset, List.mem_toFinset, List.mem_toFinset, hleft]
    rw [length_active_eq_card, hset, card_sdiff_of_subset
      (fun p hp => List.mem_toFinset.mpr (hsub p (List.mem_toFinset.mp hp))),
      List.toFinset_card_of_nodup hnd, hlen, ← length_active_eq_card]

/-! ### Below the share -/

/-- The partitions of the queue are there, and none of them is unowned or lapsed. -/
def Taken (cfg : Config) (now : Time) (db : Database) : Prop :=
  ∀ p ∈ partitionIds, ∃ row, db.partitions.get? ⟨cfg.queue, p⟩ = some row ∧
    Database.acquirable cfg.queue now.unixMilli row = false

lemma mem_active_undrain (hps : ∀ p ∈ ps, p ∈ m.partitionsLocked.2) :
    p ∈ (m.undrain ps).partitionsLocked.1 ↔ p ∈ m.partitionsLocked.1 ∨ p ∈ ps := by
  rw [mem_active, mem_active, undrain, get?_map, exists_marked]
  by_cases hp : p ∈ ps
  · obtain ⟨st, hst, -⟩ := mem_draining.mp (hps p hp)
    simp [hp, hst]
  · simp [hp]

lemma mem_draining_undrain :
    p ∈ (m.undrain ps).partitionsLocked.2 ↔ p ∈ m.partitionsLocked.2 ∧ p ∉ ps := by
  rw [mem_draining, mem_draining, undrain, get?_map, exists_marked]
  by_cases hp : p ∈ ps <;> simp [hp]

lemma length_active_undrain (hnd : ps.Nodup) (hps : ∀ p ∈ ps, p ∈ m.partitionsLocked.2) :
    (m.undrain ps).partitionsLocked.1.length = m.partitionsLocked.1.length + ps.length := by
  have hset : (m.undrain ps).partitionsLocked.1.toFinset =
      m.partitionsLocked.1.toFinset ∪ ps.toFinset := by
    ext p
    rw [mem_union, List.mem_toFinset, List.mem_toFinset, List.mem_toFinset, mem_active_undrain hps]
  have hdisj : Disjoint m.partitionsLocked.1.toFinset ps.toFinset := by
    rw [Finset.disjoint_left]
    intro p hp hp'
    obtain ⟨st, hst, hd⟩ := mem_active.mp (mem_toFinset.mp hp)
    obtain ⟨st', hst', hd'⟩ := mem_draining.mp (hps p (mem_toFinset.mp hp'))
    rw [← some.inj (hst.symm.trans hst'), hd] at hd'
    cases hd'
  rw [length_active_eq_card, hset, card_union_of_disjoint hdisj,
    toFinset_card_of_nodup hnd, ← length_active_eq_card]

section Adopt

variable {sched : Sched} {limit : ℕ}

lemma InSync.not_known (h : InSync cfg c now m₀ x) {l : Lease}
    (hl : l ∈ (x.db.acquirePartitions sched cfg.queue c.name now cfg.leaseTTL limit).1) :
    x.memory.leases.get? l.partition = none := by
  rw [acquirePartitions_fst] at hl
  obtain ⟨row', hrow', rfl⟩ := mem_leasesOf.mp hl
  obtain ⟨row, hrow, rfl⟩ := List.mem_map.mp hrow'
  obtain ⟨hmem, htaken⟩ := List.mem_filter.mp hrow
  have hfree := (Bool.and_eq_true _ _ ▸ htaken : _ ∧ _).1
  have hget : x.db.partitions.get? ⟨cfg.queue, row.key.partition⟩ = some row := by
    rw [← queue_of_taken htaken]
    exact mem_iff_get?.mp hmem
  rw [eq_none_iff_forall_ne_some]
  intro st hst
  obtain ⟨row', hrow', hmine, -⟩ := h.agrees.row_of_lease hst
  rw [show row' = row from some.inj (hrow'.symm.trans hget)] at hmine
  rw [h.fresh _ row hget hmine] at hfree
  cases hfree

lemma InSync.agrees_adopt (h : InSync cfg c now m₀ x) :
    Agrees cfg c ⟨x.memory.adopt
        (x.db.acquirePartitions sched cfg.queue c.name now cfg.leaseTTL limit).1 now,
      (x.db.acquirePartitions sched cfg.queue c.name now cfg.leaseTTL limit).2⟩ := by
  intro p
  set acquired := (x.db.acquirePartitions sched cfg.queue c.name now cfg.leaseTTL limit).1
    with hacq
  have hnd : (acquired.map Lease.partition).Nodup := nodup_acquirePartitions ..
  obtain ⟨hnew, hold⟩ := get?_leases_adopt (c := x.memory) hnd now p
  show ((x.memory.adopt acquired now).leases.get? p).map _ = leaseView c
    ((x.db.acquirePartitions sched cfg.queue c.name now cfg.leaseTTL limit).2.partitions.get? _)
  rw [get?_acquirePartitions]
  by_cases hp : p ∈ acquired.map Lease.partition
  · obtain ⟨l, hl, hlp⟩ := mem_map.mp hp
    rw [hacq, acquirePartitions_fst] at hl
    obtain ⟨row', hrow', rfl⟩ := mem_leasesOf.mp hl
    obtain ⟨row, hrow, rfl⟩ := List.mem_map.mp hrow'
    obtain ⟨hmem, htaken⟩ := List.mem_filter.mp hrow
    have hget : x.db.partitions.get? ⟨cfg.queue, p⟩ = some row := by
      rw [← hlp, ← queue_of_taken htaken]
      exact mem_iff_get?.mp hmem
    rw [hnew _ (by rw [hacq, acquirePartitions_fst]; exact hl) hlp, hget,
      map_some, map_some, if_pos htaken, leaseView_of_owner rfl]
    rfl
  · rw [hold hp, h.agrees p]
    congr 1
    cases hrow : x.db.partitions.get? ⟨cfg.queue, p⟩ with
    | none => rfl
    | some row =>
      rw [map_some, if_neg]
      intro htaken
      refine hp (mem_map.mpr ⟨(takeOver c.name
        (Time.unixMilli (now + cfg.leaseTTL)) row).toLease, ?_, ?_⟩)
      · rw [hacq, acquirePartitions_fst]
        exact mem_leasesOf.mpr ⟨_, List.mem_map_of_mem
          (List.mem_filter.mpr ⟨mem_of_get? hrow, htaken⟩), rfl⟩
      · show row.key.partition = p
        rw [key_of_get? hrow]

lemma InSync.active_adopt (h : InSync cfg c now m₀ x) (sched : Sched) (limit : ℕ)
    {acquired : List Lease}
    (hacq : acquired = (x.db.acquirePartitions sched cfg.queue c.name now cfg.leaseTTL limit).1) :
    (x.memory.adopt acquired now).partitionsLocked.1.length =
        x.memory.partitionsLocked.1.length + acquired.length ∧
      ∀ p, p ∈ (x.memory.adopt acquired now).partitionsLocked.2 →
        p ∈ x.memory.partitionsLocked.2 := by
  have hnd : (acquired.map Lease.partition).Nodup := by
    rw [hacq]
    exact nodup_acquirePartitions ..
  have hadopt := fun p => get?_leases_adopt (c := x.memory) hnd now p
  have hnone : ∀ p ∈ acquired.map Lease.partition, x.memory.leases.get? p = none := by
    intro p hp
    obtain ⟨l, hl, rfl⟩ := mem_map.mp hp
    rw [hacq] at hl
    exact h.not_known hl
  have hset : (x.memory.adopt acquired now).partitionsLocked.1.toFinset =
      x.memory.partitionsLocked.1.toFinset ∪ (acquired.map Lease.partition).toFinset := by
    ext p
    rw [mem_union, List.mem_toFinset, List.mem_toFinset, List.mem_toFinset, mem_active, mem_active]
    by_cases hp : p ∈ acquired.map Lease.partition
    · obtain ⟨l, hl, hlp⟩ := mem_map.mp hp
      rw [(hadopt p).1 l hl hlp]
      exact ⟨fun _ => .inr hp, fun _ => ⟨_, rfl, rfl⟩⟩
    · rw [(hadopt p).2 hp]
      exact ⟨.inl, fun h => h.resolve_right hp⟩
  have hdisj : Disjoint x.memory.partitionsLocked.1.toFinset
      (acquired.map Lease.partition).toFinset := by
    rw [Finset.disjoint_left]
    intro p hp hp'
    obtain ⟨st, hst, -⟩ := mem_active.mp (mem_toFinset.mp hp)
    rw [hnone p (mem_toFinset.mp hp')] at hst
    cases hst
  refine ⟨?_, fun p hp => ?_⟩
  · rw [length_active_eq_card, hset, card_union_of_disjoint hdisj,
      toFinset_card_of_nodup hnd, length_map, ← length_active_eq_card]
  · obtain ⟨st, hst, hd⟩ := mem_draining.mp hp
    by_cases hpa : p ∈ acquired.map Lease.partition
    · obtain ⟨l, hl, hlp⟩ := mem_map.mp hpa
      rw [(hadopt p).1 l hl hlp, some.injEq] at hst
      rw [← hst] at hd
      cases hd
    · rw [(hadopt p).2 hpa] at hst
      exact mem_draining.mpr ⟨st, hst, hd⟩

lemma InSync.acquire (h : InSync cfg c now m₀ x) (httl : 0 ≤ cfg.leaseTTL)
    (hlock : ∀ pk, sched.lockedPartition pk = false) (limit : ℕ) :
    (x.db.acquirePartitions sched cfg.queue c.name now cfg.leaseTTL limit).1.length ≤ limit ∧
      ((x.db.acquirePartitions sched cfg.queue c.name now cfg.leaseTTL limit).1.length < limit →
        Taken cfg now (x.db.acquirePartitions sched cfg.queue c.name now cfg.leaseTTL limit).2):= by
  have hlen := @Database.length_acquirePartitions x.db cfg.queue sched limit now h.inside hlock
    c.name cfg.leaseTTL
  refine ⟨by omega, fun hlt p hp => ?_⟩
  obtain ⟨row, hrow⟩ := h.created p hp
  refine ⟨_, (get?_acquirePartitions ..).trans (by rw [hrow, map_some]), ?_⟩
  by_cases ht : x.db.taken sched cfg.queue now.unixMilli limit row = true
  · rw [if_pos ht]
    exact acquirable_takeOver httl row
  · rw [if_neg ht, Bool.eq_false_iff]
    exact fun hfree => ht (taken_of_acquirable h.inside hlock (by omega)
      (mem_of_get? hrow) hfree)

end Adopt

lemma InSync.undrain (h : InSync cfg c now m₀ x) {db : Database}
    (hdb : ∀ pk, db.partitions.get? pk = (x.db.partitions.get? pk).map
      (touched cfg c ps fun row => { row with draining := false })) :
    InSync cfg c now m₀ ⟨x.memory.undrain ps, db⟩ := by
  refine h.mark (g := fun st => { st with draining := false }) hdb (fun p => ?_)
    (fun st => ⟨rfl, rfl, rfl⟩) nofun
  rw [Consumer.undrain, get?_map]

/-- The share is reached, or nothing drains any more and nothing is left to acquire. -/
structure Grown (cfg : Config) (c : Owner) (now : Time) (target : ℕ) (y : Solo) : Prop where
  agrees : Agrees cfg c y
  length_le : y.memory.partitionsLocked.1.length ≤ target
  exhausted : y.memory.partitionsLocked.1.length < target →
    y.memory.partitionsLocked.2 = [] ∧ Taken cfg now y.db

lemma Grown.beside {target : ℕ} (h : Grown cfg c now target x) (hy : x.Beside y) :
    Grown cfg c now target y := by
  have hparts : y.memory.partitionsLocked = x.memory.partitionsLocked := by
    unfold partitionsLocked
    rw [hy.leases]
  refine ⟨h.agrees.beside hy, ?_, ?_⟩
  · rw [hparts]
    exact h.length_le
  · rw [hparts]
    unfold Taken
    rw [hy.partitions]
    exact h.exhausted

lemma attains_grow (h : InSync cfg c now m₀ x) (httl : 0 ≤ cfg.leaseTTL) (need : ℕ) :
    Attains (grow cfg c now need x.memory.partitionsLocked.2) (fun trail y =>
      (∀ e ∈ trail, e.2.1.Quiet) ∧
        Grown cfg c now (x.memory.partitionsLocked.1.length + need) y) x := by
  obtain ⟨ps, hps⟩ : ∃ ps, ps = x.memory.partitionsLocked.2.take need := ⟨_, rfl⟩
  have hsub : ∀ p ∈ ps, p ∈ x.memory.partitionsLocked.2 := by
    rw [hps]
    exact fun p hp => List.mem_of_mem_take hp
  have hnd : ps.Nodup := by
    rw [hps]
    exact (nodup_listed x.memory _).sublist (List.take_sublist _ _)
  have hlen : ps.length = min need x.memory.partitionsLocked.2.length := by
    rw [hps, List.length_take]
  unfold grow
  rw [← hps]
  refine Attains.bind rfl (attains_storeSetDraining ps false) ?_
  rintro trail ⟨m, db⟩ ⟨htrail, hm, hdb⟩
  obtain rfl : m = x.memory := hm
  have hready := h.undrain hdb
  have hactive := length_active_undrain hnd hsub
  have hquiet : ∀ e ∈ trail, e.2.1.Quiet := by
    intro e he
    rw [(htrail e he).2]
    rfl
  refine ensures_critical ?_
  by_cases heq : need = ps.length
  · rw [if_pos heq]
    refine .pure fun _ => ⟨?_, hready.agrees, ?_, fun hlt => ?_⟩
    · simp only [List.forall_mem_append, List.forall_mem_cons]
      exact ⟨hquiet, trivial, List.forall_mem_nil _⟩
    · exact (hactive.trans (by rw [heq])).le
    · change (x.memory.undrain ps).partitionsLocked.1.length < _ at hlt
      omega
  · rw [if_neg heq]
    -- everything that was draining has stopped
    have hnone : (x.memory.undrain ps).partitionsLocked.2 = [] := by
      refine List.eq_nil_iff_forall_not_mem.mpr fun p hp => ?_
      obtain ⟨hp, hnot⟩ := mem_draining_undrain.mp hp
      rw [hps, List.take_of_length_le (by omega)] at hnot
      exact hnot hp
    refine Attains.call rfl fun sched rep db' hlock hexec => ?_
    obtain ⟨rfl, rfl⟩ := mk.inj (some.inj hexec)
    obtain ⟨hle, htaken⟩ := hready.acquire httl hlock (need - ps.length)
    obtain ⟨hgrown, hdrained⟩ := hready.active_adopt sched (need - ps.length) rfl
    refine ensures_critical ((ensures_aside (aside_storeResetStale _)).weaken ?_)
    rintro ok trail' y ⟨hy, htrail'⟩ hok
    refine ⟨?_, Grown.beside ⟨hready.agrees_adopt, ?_, fun hlt => ⟨?_, ?_⟩⟩ hy⟩
    · simp only [List.forall_mem_append, List.forall_mem_cons]
      exact ⟨hquiet, trivial, trivial, trivial, htrail'⟩
    · refine hgrown.le.trans ?_
      show (x.memory.undrain ps).partitionsLocked.1.length + _ ≤ _
      omega
    · refine List.eq_nil_iff_forall_not_mem.mpr fun p hp => ?_
      have hp' : p ∈ (x.memory.undrain ps).partitionsLocked.2 := hdrained p hp
      rw [hnone] at hp'
      exact absurd hp' List.not_mem_nil
    · have hlt' := hgrown.symm.trans_lt hlt
      change (x.memory.undrain ps).partitionsLocked.1.length + _ < _ at hlt'
      exact htaken (by omega)

lemma attains_balance (h : InSync cfg c now m₀ x) (httl : 0 ≤ cfg.leaseTTL) (target : ℕ) :
    Attains (balance cfg c now target) (fun trail y =>
      (∀ e ∈ trail, Released cfg c now m₀ e ∧ Lightest cfg c y e) ∧ Grown cfg c now target y) x:= by
  refine ensures_critical ?_
  show Attains (if x.memory.partitionsLocked.1.length < target then
      grow cfg c now (target - x.memory.partitionsLocked.1.length) x.memory.partitionsLocked.2
    else if target < x.memory.partitionsLocked.1.length then
      shrink cfg c now x.memory.partitionsLocked.1 (x.memory.partitionsLocked.1.length - target)
    else pure true) _ x
  split
  next hlt =>
    refine (attains_grow h httl _).weaken fun ok trail y hy hok => ?_
    obtain ⟨htrail, hgrown⟩ := hy hok
    rw [show x.memory.partitionsLocked.1.length +
      (target - x.memory.partitionsLocked.1.length) = target by omega] at hgrown
    exact ⟨forall_mem_cons.mpr ⟨justified_of_quiet trivial,
      fun e he => justified_of_quiet (htrail e he)⟩, hgrown⟩
  · split
    next hlt =>
      refine (attains_shrink h (by omega)).weaken fun ok trail y hy hok => ?_
      obtain ⟨htrail, hagrees, hlen⟩ := hy hok
      exact ⟨forall_mem_cons.mpr ⟨justified_of_quiet trivial, htrail⟩, hagrees, by omega,
        fun h => by omega⟩
    · exact Attains.pure ⟨forall_mem_cons.mpr ⟨justified_of_quiet trivial,
        forall_mem_nil _⟩, h.agrees, by omega, fun h => by omega⟩

/-! ### The whole call -/

/-- The members have been counted here, as `members`. -/
def CountsMembers (cfg : Config) (members : ℕ) (e : Entry) : Prop :=
  e.2 = ⟨.call (.countMembers cfg.queue), some members⟩

lemma ensures_storeHeartbeat (member : Bool) :
    (storeHeartbeat cfg.queue c now cfg.leaseTTL member).Ensures Solo.Moves
      (fun r trail y => ∀ held members, r = some (held, members) →
        (∀ e ∈ trail, e.2.1.Quiet) ∧ (∃ e ∈ trail, CountsMembers cfg members e) ∧
          y.memory = x.memory ∧ ∃ db : Database, db.partitions = x.db.partitions ∧
            db.renewLeases cfg.queue c.name (Time.unixMilli (now + cfg.leaseTTL)) = (held, y.db))
      x := by
  have hmember : Attains (membership cfg.queue c (Time.unixMilli (now + cfg.leaseTTL)) member)
      (fun trail y => (∀ e ∈ trail, e.2.1.Quiet) ∧ y.memory = x.memory ∧
        y.db.partitions = x.db.partitions) x := by
    unfold membership
    split
    · refine Attains.call rfl fun sched rep db' _ hexec => ?_
      cases hexec
      exact .pure ⟨by simp [Action.Quiet], rfl, rfl⟩
    · refine Attains.call rfl fun sched rep db' _ hexec => ?_
      cases hexec
      exact .pure ⟨by simp [Action.Quiet], rfl, rfl⟩
  refine .bind (hmember.weaken ?_)
  rintro ok trail y hy
  cases ok with
  | false => exact .pure nofun
  | true =>
    obtain ⟨hquiet, hmem, hparts⟩ := hy rfl
    refine ensures_call (fun y => .pure nofun) fun sched rep db₁ _ hexec₁ => ?_
    refine ensures_call (fun y => .pure nofun) fun sched n db₂ _ hexec₂ => ?_
    refine ensures_call (fun y => .pure nofun) fun sched held db₃ _ hexec₃ => ?_
    refine .pure fun held' members heq => ?_
    obtain ⟨rfl, rfl⟩ := mk.inj (some.inj heq)
    cases hexec₁
    obtain ⟨-, rfl⟩ := mk.inj (some.inj hexec₂)
    refine ⟨?_, ⟨_, mem_append_right _ (mem_cons_of_mem _ mem_cons_self), rfl⟩,
      hmem, y.db.expireMembers cfg.queue now.unixMilli, hparts, some.inj hexec₃⟩
    simp only [List.forall_mem_append, List.forall_mem_cons]
    exact ⟨hquiet, trivial, trivial, trivial, List.forall_mem_nil _⟩

/-- What one call of `Rebalance` comes to: the share is reached (`Grown`), for good reason at every
step. -/
structure ShareReached (cfg : Config) (c : Owner) (now : Time) (target : ℕ) (m₀ : Consumer)
    (trail : List Entry) (y : Solo) : Prop extends Grown cfg c now target y where
  lightest : ∀ e ∈ trail, Lightest cfg c y e
  released : ∀ e ∈ trail, Released cfg c now m₀ e

lemma ShareReached.around {target : ℕ} {trail trail' : List Entry}
    (h : ShareReached cfg c now target m₀ trail y)
    (htrail : ∀ e ∈ trail', e ∈ trail ∨ e.2.1.Quiet) : ShareReached cfg c now target m₀ trail' y :=
  ⟨h.toGrown, fun e he => (htrail e he).elim (h.lightest e) lightest_of_quiet,
    fun e he => (htrail e he).elim (h.released e) released_of_quiet⟩

lemma attains_renewAndBalance (hin : x.db.Inside cfg.queue) (hcreated : x.db.Created cfg.queue)
    (httl : 0 ≤ cfg.leaseTTL) (hm₀ : x.memory.leases = m₀.leases) :
    Attains (renewAndBalance cfg c now) (fun trail y =>
      ∃ members, (∃ e ∈ trail, CountsMembers cfg members e) ∧
        ShareReached cfg c now (if x.memory.stopping then 0 else share members) m₀ trail y) x := by
  refine ensures_critical (.bind ((ensures_storeHeartbeat _).weaken ?_))
  rintro r trail ⟨m, db'⟩ hbeat
  cases r with
  | none => exact .pure nofun
  | some hm =>
  obtain ⟨held, members⟩ := hm
  obtain ⟨hquiet, ⟨e, he, hcount⟩, hmem, db, hparts, hrenew⟩ := hbeat held members rfl
  obtain rfl : m = x.memory := hmem
  have hready := @inSync_syncLeases cfg c now m₀ x.memory db _ (hin.congr hparts)
    (hcreated.congr hparts) (Time.unixMilli_mono (Int.le_add_of_nonneg_right httl)) hm₀
  rw [hrenew] at hready
  refine ensures_critical (.bind ((ensures_aside (aside_resetStale now)).weaken ?_))
  rintro ok trail₁ y₁ ⟨hy₁, hquiet₁⟩
  cases ok with
  | false => exact .pure nofun
  | true =>
  refine Attains.bind rfl (attains_releaseDrained (hready.beside hy₁)) ?_
  rintro trail₂ y₂ ⟨htrail₂, hready₂, -⟩
  refine (attains_balance hready₂ httl _).weaken fun ok trail₃ y hy hok => ?_
  obtain ⟨htrail₃, hgrown⟩ := hy hok
  have hshare : ShareReached cfg c now (if x.memory.stopping then 0 else share members) m₀
      (trail₂ ++ trail₃) y := by
    refine ⟨hgrown, ?_, ?_⟩
    · exact forall_mem_append.mpr ⟨fun e he => (htrail₂ e he).2 y,
        fun e he => (htrail₃ e he).2⟩
    · exact forall_mem_append.mpr ⟨fun e he => (htrail₂ e he).1,
        fun e he => (htrail₃ e he).1⟩
  refine ⟨members, ⟨e, by simp [he], hcount⟩, hshare.around ?_⟩
  simp only [List.forall_mem_append, List.forall_mem_cons]
  exact ⟨.inr trivial, fun e he => .inr (hquiet e he), .inr trivial,
    fun e he => .inr (hquiet₁ e he), fun e he => .inl (List.mem_append_left _ he),
    fun e he => .inl (mem_append_right _ he)⟩

lemma attains_ensureSeeded (hin : x.db.Inside cfg.queue)
    (hseeded : x.memory.seeded = true → x.db.Created cfg.queue) :
    Attains (ensureSeeded cfg) (fun trail y =>
      (∀ e ∈ trail, e.2.1.Quiet) ∧ y.memory.leases = x.memory.leases ∧
        y.memory.stopping = x.memory.stopping ∧ y.db.Inside cfg.queue ∧
          y.db.Created cfg.queue) x := by
  refine ensures_critical ?_
  cases hs : x.memory.seeded with
  | true =>
    rw [show (Critical.readSeeded.run x.memory).1 = true from hs]
    exact .pure fun _ => ⟨by simp [Action.Quiet], rfl, rfl, hin, hseeded hs⟩
  | false =>
    rw [show (Critical.readSeeded.run x.memory).1 = false from hs]
    refine Attains.call rfl fun sched rep db' _ hexec => ?_
    refine ensures_critical (.pure fun _ => ⟨by simp [Action.Quiet], rfl, rfl, hin.exec hexec, ?_⟩)
    have hdb : x.seededDb cfg = db' := by
      rw [Solo.seededDb, hs, if_neg Bool.false_ne_true]
      exact congrArg snd (some.inj hexec)
    show db'.Created cfg.queue
    rw [← hdb]
    exact created_seededDb hseeded

section Whole

variable (hin : x.db.Inside cfg.queue) (hseeded : x.memory.seeded = true → x.db.Created cfg.queue)
  (httl : 0 ≤ cfg.leaseTTL)

include hin hseeded httl

lemma attains_rebalanceBody : Attains (rebalanceBody cfg c now) (fun trail y =>
    ∃ members, (∃ e ∈ trail, CountsMembers cfg members e) ∧ ShareReached cfg c now
      (if x.memory.stopping then 0 else share members) x.memory trail y) x := by
  refine Attains.bind rfl (attains_ensureSeeded hin hseeded) ?_
  rintro trail₀ y₀ ⟨hquiet₀, hleases₀, hstop₀, hin₀, hcreated₀⟩
  have horphans : (undispatchOrphans c).Always Action.Aside :=
    (aside_undispatchOrphans cfg.queue).mono fun _ h => h.2
  refine Prog.Ensures.bind ((ensures_aside horphans).weaken ?_)
  rintro undispatched trail₁ y₁ ⟨hy₁, hquiet₁⟩
  refine .bind ((ensures_aside (aside_reconcileInFlight.mono fun _ h => h.2)).weaken ?_)
  rintro reconciled trail₂ y₂ ⟨hy₂, hquiet₂⟩
  have hparts := hy₂.partitions.trans hy₁.partitions
  have hleases₂ : y₂.memory.leases = x.memory.leases :=
    hy₂.leases.trans (hy₁.leases.trans hleases₀)
  have hstop₂ : y₂.memory.stopping = x.memory.stopping :=
    hy₂.stopping.trans (hy₁.stopping.trans hstop₀)
  refine .bind ((attains_renewAndBalance (hin₀.congr hparts) (hcreated₀.congr hparts) httl
    hleases₂).weaken ?_)
  rintro balanced trail₃ y hy
  refine .pure fun hok => ?_
  obtain ⟨members, ⟨e, he, hcount⟩, hshare⟩ := hy (Bool.and_eq_true_iff.mp hok).2
  rw [hstop₂] at hshare
  refine ⟨members, ⟨e, by simp [he], hcount⟩, hshare.around ?_⟩
  simp only [forall_mem_append]
  exact ⟨fun e he => .inr (hquiet₀ e he), fun e he => .inr (hquiet₁ e he),
    fun e he => .inr (hquiet₂ e he), fun e he => .inl he, forall_mem_nil _⟩

lemma attains_rebalance : Attains (rebalance cfg c now) (fun trail y =>
    ∃ members, (∃ e ∈ trail, CountsMembers cfg members e) ∧ ShareReached cfg c now
      (if x.memory.stopping then 0 else share members) x.memory trail y) x := by
  refine .step ?_
  rintro - y rfl
  refine .bind ((attains_rebalanceBody hin hseeded httl).weaken ?_)
  rintro ok trail y hy
  refine .step ?_
  rintro - y' rfl
  refine .pure fun hok => ?_
  obtain ⟨members, ⟨e, he, hcount⟩, hshare⟩ := hy hok
  refine ⟨members, ⟨e, by simp [he], hcount⟩, hshare.around ?_⟩
  simp only [List.forall_mem_append, List.forall_mem_cons]
  exact ⟨.inr trivial, fun e he => .inl he, .inr trivial, List.forall_mem_nil _⟩

end Whole

end Steps

/-- `Rebalance` runs from any reachable state, with nobody else at work, and returns without an
error.  Then the share of the members it has counted is reached, or zero if the consumer is
stopping. -/
theorem rebalance_reaches_share {cfg : Owner → Config}
    {P : Pool Action Action.Reply Thread Cluster}
    (h : (system cfg).Reachable .free Cluster.initial P) {t : Thread} {now : Time}
    (httl : 0 ≤ (cfg t.consumer).leaseTTL) {trail : List (Cluster × Sigma Action.Reply)}
    {σ' : Cluster} (hrun : Prog.Trail (Cluster.Alone t)
      (rebalance (cfg t.consumer) t.consumer now) P.state trail true σ') :
    ∃ members, (∃ e ∈ trail, e.2 = ⟨.call (.countMembers (cfg t.consumer).queue), some members⟩) ∧
      ShareReached (cfg t.consumer) t.consumer now
        (if (P.state.memory t.consumer).stopping then 0 else share members)
        (P.state.memory t.consumer) (trail.map fun e => (e.1.solo t.consumer, e.2))
        (σ'.solo t.consumer) := by
  have hin : P.state.world.db.Inside (cfg t.consumer).queue :=
    (known_of_reachable h).reachable.inside _
  have hseeded := seeded_of_reachable h t.consumer
  have hsolo := Prog.Trail.view (fun σ : Cluster => σ.solo t.consumer) Cluster.Alone.moves hrun
  obtain ⟨members, ⟨e, he, hcount⟩, hshare⟩ :=
    attains_rebalance (x := P.state.solo t.consumer) hin hseeded httl _ _ _ hsolo rfl
  obtain ⟨e₀, he₀, rfl⟩ := mem_map.mp he
  exact ⟨members, ⟨e₀, he₀, hcount⟩, hshare⟩

/-- A dispatcher takes all partitions, dispatches a request and is told to stop. -/
def stoppingRun : List (Label Thread Choice Op EnvStep) :=
  let t₀ : Thread := ⟨⟨"dispatcher-0", first_ne⟩, 0⟩
  .env (.client Sched.plain
      (.enqueue 0 [⟨⟨"r1", "t1"⟩, "q", 0, 0, 0, 600, "", [], false, 0⟩])) ::
    alone t₀ (.rebalance 0) ++ alone t₀ (.poll 0 10) ++ alone t₀ .stop

/-- Its next `Rebalance` leaves it without an active partition. -/
theorem stoppingRun_reaches_share :
    let t₀ : Thread := ⟨⟨"dispatcher-0", by decide⟩, 0⟩
    let cfg := queueConfig t₀.consumer
    let P := (system queueConfig).run (ThreadSystem.idle initial) stoppingRun
    (P.state.memory t₀.consumer).inflightOf (partitionOf "r1") = 1 ∧
      ∃ trail σ',
        Prog.Trail (Cluster.Alone t₀) (rebalance cfg t₀.consumer 0) P.state trail true σ' ∧
        ShareReached cfg t₀.consumer 0 0 (P.state.memory t₀.consumer)
          (trail.map fun e => (e.1.solo t₀.consumer, e.2)) (σ'.solo t₀.consumer) := by
  intro t₀ cfg P
  have hreach : (system queueConfig).Reachable .free initial P :=
    (system queueConfig).reachable_run initial stoppingRun
  obtain ⟨hcount, hstop, hsome⟩ :
      (P.state.memory t₀.consumer).inflightOf (partitionOf "r1") = 1 ∧
        (P.state.memory t₀.consumer).stopping = true ∧
        ((rebalance cfg t₀.consumer 0).alone
          (fun i => exec t₀ i ⟨.ok, Sched.plain⟩) P.state).map fst = some true := by
    decide +kernel
  clear_value P
  obtain ⟨⟨ok, σ'⟩, hrun, hok⟩ := map_eq_some_iff.mp hsome
  obtain rfl : ok = true := hok
  obtain ⟨trail, htrail⟩ := Prog.exists_trail_of_alone
    (fun i s r s' hexec => (⟨_, fun _ => rfl, hexec⟩ : Cluster.Alone t₀ i s r s')) hrun
  obtain ⟨members, -, hshare⟩ := rebalance_reaches_share hreach (by decide) htrail
  rw [if_pos hstop] at hshare
  exact ⟨hcount, trail, σ', htrail, hshare⟩

end LlmdAsync.SqlQueue
