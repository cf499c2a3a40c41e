import LlmdAsync.SqlQueue.Fencing

/-!
# Dispatches in force

A dispatch of a request is in force for a consumer while the row carries its attempt at the current
epoch of a partition the consumer owns.  Nobody but the consumer itself, by `Dispatch`, can bring a
dispatch into force, and a successful outcome write ends it.
-/

namespace LlmdAsync.SqlQueue

open List Option Table Database

lemma Owner.eq_of_name_eq {o o' : Owner} (h : o.name = o'.name) : o = o' := by
  cases o
  cases o'
  cases h
  rfl

/-- The row of the key is stamped with the attempt at the current epoch of a partition that `c`
owns. -/
def Database.Live (db : Database) (c : Owner) (k : Key) (a : ℤ) : Prop :=
  ∃ r p, db.requests.get? k = some r ∧ db.partitionOfRow r = some p ∧ p.owner = c.name ∧
    0 < r.dispatchEpoch ∧ r.dispatchEpoch = p.epoch ∧ r.dispatchAttempt = a

/-- The consumer for which a statement dispatches. -/
def Stmt.dispatcher? : Stmt → Option Owner
  | .dispatch _ owner _ _ => some owner
  | _ => none

namespace Database

lemma partitions_dispatch {db db' : Database} {sched : Sched} {queue : String} {owner : Owner}
    {now : Time} {limit : ℕ} {rep : Reply (.dispatch queue owner now limit)}
    (h : db.exec sched (.dispatch queue owner now limit) = some (rep, db')) :
    db'.partitions = db.partitions := by
  cases h
  rfl

end Database

/-- What a statement brings into force, it dispatched: for its own consumer, and it tells. -/
theorem World.Reachable.live_of_exec {w : World} (hw : w.Reachable) {sched : Sched} {s : Stmt}
    {rep : Reply s} {db' : Database} (h : w.db.exec sched s = some (rep, db')) {c : Owner} {k : Key}
    {a : ℤ} (hl : db'.Live c k a) :
    w.db.Live c k a ∨ s.dispatcher? = some c ∧ w.db.nextAttempt ≤ a ∧
        ∃ q, .dispatched c.name q ∈ w.db.events sched s ∧ q.key = k ∧ q.attempt = a := by
  obtain ⟨r', p', hr', hp', ho, hpos, he, ha⟩ := hl
  have hbound := (hw.rowInvariant k).epoch_bounds
  obtain ⟨evs, hevs, hrow⟩ := w.db.exec_rowEffect h k
  obtain ⟨pevs, -, hpart⟩ := w.db.exec_partitionEffect h r'.partitionKey
  -- a row that kept its stamp was in force before, whatever happened to its partition
  have hold : ∀ r, w.db.requests.get? k = some r → r.partitionKey = r'.partitionKey →
      r.dispatchEpoch = r'.dispatchEpoch → r.dispatchAttempt = r'.dispatchAttempt →
      w.db.Live c k a := by
    intro r hr hpk hre hra
    have hle := (hbound r hr).2
    rw [hpk] at hle
    have hget : w.db.partitionOfRow r = w.db.partitions.get? r'.partitionKey := by
      rw [partitionOfRow, hpk]
    unfold partitionOfRow at hp'
    cases hpart with
    | keep hkeep =>
      rw [hkeep] at hp'
      exact ⟨r, p', hr, hget.trans hp', ho, hre ▸ hpos, hre.trans he, hra.trans ha⟩
    | create hp hp'' howner hepoch =>
      rw [hp'', some.injEq] at hp'
      rw [← hp', hepoch] at he
      omega
    | renew hp hp'' | drain hp hp'' =>
      rw [hp'', some.injEq] at hp'
      subst hp'
      exact ⟨r, _, hr, hget.trans hp, ho, hre ▸ hpos, hre.trans he, hra.trans ha⟩
    | acquire hp hp'' =>
      rw [hp'', some.injEq] at hp'
      subst hp'
      rw [epochOf_of_some hp] at hle
      simp only [takeOver] at he
      omega
    | release hp hp'' | leave hp hp'' =>
      rw [hp'', some.injEq] at hp'
      subst hp'
      exact absurd ho.symm c.name_ne
  cases hrow with
  | keep hkeep => exact .inl (hold r' (hkeep ▸ hr') rfl rfl rfl)
  | cancel hr hr'' =>
    rw [hr'', some.injEq] at hr'
    subst hr'
    exact .inl (hold _ hr rfl rfl rfl)
  | enqueue hr hr'' hfresh =>
    rw [hr'', some.injEq] at hr'
    have := hfresh.epoch_eq
    subst hr'
    omega
  | undispatch hr hr'' | retry hr hr'' | reset hr hr'' =>
    rw [hr'', some.injEq] at hr'
    subst hr'
    exact absurd hpos (lt_irrefl 0)
  | ack hr hr'' =>
    rw [hr''] at hr'
    cases hr'
  | @dispatch queue owner now limit r p b hr hr'' hqueue hpending hp howner hactive hlo hhi =>
    right
    rw [hr'', some.injEq] at hr'
    subst hr'
    have hpp : p' = p := by
      unfold partitionOfRow at hp hp'
      rw [partitions_dispatch h] at hp'
      exact some.inj (hp'.symm.trans hp)
    subst hpp
    have hoc : owner = c := Owner.eq_of_name_eq (howner.symm.trans ho)
    subst hoc
    have hkey : r.key = k := key_of_get? hr
    subst ha
    refine ⟨rfl, hlo, { r with dispatchEpoch := p'.epoch, dispatchAttempt := b }.toRequest, ?_,
      hkey, rfl⟩
    have hsub : ∀ e ∈ aboutKey k (w.db.events sched (.dispatch queue owner now limit)),
        e ∈ w.db.events sched (.dispatch queue owner now limit) :=
      fun e he => (mem_filter.mp he).1
    refine hsub _ ?_
    rw [hevs]
    exact mem_cons_self

namespace Database

/-! ### What ends a dispatch -/

lemma not_live_undispatch {db : Database} {c : Owner} {stamps : List Stamp} {notBefore : ℤ}
    {stamp : Stamp} (h : stamp ∈ stamps) :
    ¬(db.undispatch c.name stamps notBefore).Live c stamp.key stamp.attempt := by
  rintro ⟨r', p, hr', hp, ho, hpos, he, ha⟩
  rw [undispatch, get?_map] at hr'
  obtain ⟨r, hr, rfl⟩ := map_eq_some_iff.mp hr'
  split at hpos
  · exact absurd hpos (lt_irrefl 0)
  next hnot =>
    rw [if_neg hnot] at hp ha
    refine hnot (any_eq_true.mpr ⟨stamp, mem_eraseDups.mpr h, ?_⟩)
    refine carries_iff.mpr ⟨?_, hpos, p, hp, ho⟩
    rw [ha, key_of_get? hr]

lemma not_live_retry {db : Database} {c : Owner} {stamp : Stamp} {notBefore : ℤ}
    {envelope : String} :
    ¬(db.retry c.name stamp notBefore envelope).2.Live c stamp.key stamp.attempt := by
  rintro ⟨r', p, hr', hp, ho, hpos, he, ha⟩
  rw [retry, get?_map] at hr'
  obtain ⟨r, hr, rfl⟩ := map_eq_some_iff.mp hr'
  split at hpos
  · exact absurd hpos (lt_irrefl 0)
  next hnot =>
    rw [if_neg hnot] at hp ha
    refine hnot (carries_iff.mpr ⟨?_, hpos, p, hp, ho⟩)
    rw [ha, key_of_get? hr]

lemma not_live_ack {db : Database} {c : Owner} {cs : List Completion} {createdAt : ℤ}
    {comp : Completion} (h : comp ∈ cs)
    (hmax : ∀ comp' ∈ cs, comp'.key = comp.key → db.Live c comp.key comp.attempt →
      comp'.attempt ≤ comp.attempt) :
    ¬(db.ack c.name cs createdAt).2.Live c comp.key comp.attempt := by
  rintro ⟨r, p, hr', hp, ho, hpos, he, ha⟩
  have hget : (db.requests.get? comp.key).filter
      (fun r => !((uniqueCompletions cs).map Prod.fst).any (db.completes c.name · r)) =
        some r := by
    rw [← hr', ack, get?_filter]
  obtain ⟨hr, hnot⟩ := filter_eq_some_iff.mp hget
  have hlive : db.Live c comp.key comp.attempt := ⟨r, p, hr, hp, ho, hpos, he, ha⟩
  obtain ⟨u, hu, hukey, huatt⟩ := exists_uniqueCompletions_ge h
  have hule := hmax u.1 (mem_of_mem_uniqueCompletions (mem_map_of_mem hu)) hukey hlive
  have hcomp : db.completes c.name u.1 r = true :=
    completes_iff.mpr ⟨(key_of_get? hr).trans hukey.symm, hpos, by omega, p, hp, ho, he.symm⟩
  rw [Bool.not_eq_true', ← Bool.not_eq_true] at hnot
  exact hnot (any_eq_true.mpr ⟨u.1, mem_map_of_mem hu, hcomp⟩)

lemma mem_inFlight {db : Database} {queue : String} {c : Owner} {k : Key} {a : ℤ} :
    ⟨k, a⟩ ∈ db.inFlight queue c.name ↔
      db.Live c k a ∧ ∃ r, db.requests.get? k = some r ∧ r.queue = queue := by
  simp only [inFlight, List.mem_map, List.mem_filter, Bool.and_eq_true, decide_eq_true_eq,
    Option.any_eq_true, Stamp.mk.injEq]
  constructor
  · rintro ⟨r, ⟨hr, ⟨hq, hpos⟩, p, hp, ho, he⟩, rfl, rfl⟩
    have hget := Table.mem_iff_get?.mp hr
    exact ⟨⟨r, p, hget, hp, ho, hpos, he, rfl⟩, r, hget, hq⟩
  · rintro ⟨⟨r, p, hr, hp, ho, hpos, he, ha⟩, r', hr', hq⟩
    rw [hr, Option.some.injEq] at hr'
    subst hr'
    exact ⟨r, ⟨Table.mem_of_get? hr, ⟨hq, hpos⟩, p, hp, ho, he⟩, Table.key_of_get? hr, ha⟩

end Database

lemma World.Reachable.le_of_live {w : World} (hw : w.Reachable) {c : Owner} {k : Key} {a b : ℤ}
    (hl : w.db.Live c k a) (hb : b ∈ drawnAttempts w.log k) : b ≤ a := by
  obtain ⟨r, p, hr, -, -, hpos, -, rfl⟩ := hl
  exact ((hw.rowInvariant k).isGreatest r hr hpos).2 hb

end LlmdAsync.SqlQueue
