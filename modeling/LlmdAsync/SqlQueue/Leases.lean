import LlmdAsync.SqlQueue.History

/-!
# What each statement does to a partition

`PartitionEffect` lists everything that can happen to one partition of a queue, together with the
events that are logged about it; `exec_partitionEffect` shows that every statement has one of these
effects on every partition.  Owners change in three ways only: a partition is acquired by somebody
when it is unowned or its lease has lapsed, and its owner gives it up.  The epoch grows by one with
every acquisition and never changes otherwise.
-/

namespace LlmdAsync.SqlQueue

open List Option Table

lemma Time.unixMilli_mono {t t' : Time} (h : t ≤ t') : t.unixMilli ≤ t'.unixMilli :=
  Int.ediv_le_ediv (by decide) h

/-- Everything a statement `s` that turns `db` into `db'` can do to the partition `pk`, with the
events it logs about that partition. -/
inductive PartitionEffect (db db' : Database) (pk : PartitionKey) : Stmt → List Event → Prop
  /-- The partition stays, or stays absent. -/
  | keep {s} (hkeep : db'.partitions.get? pk = db.partitions.get? pk) :
      PartitionEffect db db' pk s []
  /-- The partition is created, unowned. -/
  | create {queue p} (hp : db.partitions.get? pk = none) (hp' : db'.partitions.get? pk = some p)
      (howner : p.owner = "") (hepoch : p.epoch = 0) :
      PartitionEffect db db' pk (.ensurePartitions queue) []
  /-- The owner extends its lease. -/
  | renew {queue owner expires p} (hp : db.partitions.get? pk = some p)
      (hp' : db'.partitions.get? pk = some { p with leaseExpiresMs := expires })
      (hqueue : pk.queue = queue) (howner : p.owner = owner.name) :
      PartitionEffect db db' pk (.renewLeases queue owner expires) []
  /-- An unowned or lapsed partition gets a new owner and the next epoch. -/
  | acquire {queue owner now ttl limit p} (hp : db.partitions.get? pk = some p)
      (hp' : db'.partitions.get? pk =
        some (Database.takeOver owner.name (Time.unixMilli (now + ttl)) p))
      (hqueue : pk.queue = queue) (hfree : p.owner = "" ∨ p.leaseExpiresMs < now.unixMilli) :
      PartitionEffect db db' pk (.acquirePartitions queue owner now ttl limit)
        [.acquired queue owner.name ⟨pk.partition, p.epoch + 1, false⟩]
  /-- The owner starts or stops draining. -/
  | drain {queue owner partitions draining p} (hp : db.partitions.get? pk = some p)
      (hp' : db'.partitions.get? pk = some { p with draining := draining })
      (hqueue : pk.queue = queue) (howner : p.owner = owner.name)
      (hnamed : pk.partition ∈ partitions) :
      PartitionEffect db db' pk (.setDraining queue owner partitions draining) []
  /-- The owner gives the partition up. -/
  | release {queue owner partitions p} (hp : db.partitions.get? pk = some p)
      (hp' : db'.partitions.get? pk = some (Database.giveUp p)) (hqueue : pk.queue = queue)
      (howner : p.owner = owner.name) (hnamed : pk.partition ∈ partitions) :
      PartitionEffect db db' pk (.releasePartitions queue owner partitions) []
  /-- The owner leaves. -/
  | leave {queue owner p} (hp : db.partitions.get? pk = some p)
      (hp' : db'.partitions.get? pk = some (Database.giveUp p)) (hqueue : pk.queue = queue)
      (howner : p.owner = owner.name) :
      PartitionEffect db db' pk (.leave queue owner) []

namespace Database

lemma get?_ensurePartitions (db : Database) (queue : String) (pk : PartitionKey) :
    (db.ensurePartitions queue).partitions.get? pk =
      (db.partitions.insertMissing (freshPartitions queue)).get? pk := by
  rw [ensurePartitions]

lemma ensurePartitions_effect (db : Database) (queue : String) (pk : PartitionKey) :
    PartitionEffect db (db.ensurePartitions queue) pk (.ensurePartitions queue) [] := by
  have hget := db.get?_ensurePartitions queue pk
  cases hp : db.partitions.get? pk with
  | some p =>
    refine .keep ?_
    rw [hget, get?_insertMissing_of_some hp, hp]
  | none =>
    cases hp' : (db.ensurePartitions queue).partitions.get? pk with
    | none => exact .keep (hp'.trans hp.symm)
    | some p =>
      rw [hget] at hp'
      rcases get?_insertMissing_cases hp' with hold | ⟨-, hmem, -⟩
      · rw [hp] at hold
        cases hold
      · obtain ⟨i, -, rfl⟩ := mem_map.mp hmem
        exact .create hp (hget.trans hp') rfl rfl

lemma get?_map_ite (t : Table PartitionRow.key) (sel : PartitionRow → Bool)
    (f : PartitionRow → PartitionRow) (hf : ∀ p, (if sel p then f p else p).key = p.key)
    (pk : PartitionKey) :
    (t.map (fun p => if sel p then f p else p) hf).get? pk = t.get? pk ∨
      ∃ p, t.get? pk = some p ∧ sel p = true ∧
        (t.map (fun p => if sel p then f p else p) hf).get? pk = some (f p) := by
  rw [get?_map]
  cases hp : t.get? pk with
  | none => exact .inl rfl
  | some p =>
    by_cases hs : sel p = true
    · exact .inr ⟨p, rfl, hs, by rw [map_some, if_pos hs]⟩
    · exact .inl (by rw [map_some, if_neg hs])

lemma renewLeases_effect (db : Database) (queue : String) (owner : Owner) (expires : ℤ)
    (pk : PartitionKey) :
    PartitionEffect db (db.renewLeases queue owner.name expires).2 pk
      (.renewLeases queue owner expires) [] := by
  rcases get?_map_ite db.partitions (fun p => p.key.queue = queue && p.owner = owner.name)
    (fun p => { p with leaseExpiresMs := expires }) (fun p => by split <;> rfl) pk with
    hkeep | ⟨p, hp, hsel, hp'⟩
  · exact .keep hkeep
  · rw [Bool.and_eq_true, decide_eq_true_eq, decide_eq_true_eq] at hsel
    exact .renew hp hp' (key_of_get? hp ▸ hsel.1) hsel.2

lemma setDraining_effect (db : Database) (queue : String) (owner : Owner) (partitions : List ℤ)
    (draining : Bool) (pk : PartitionKey) :
    PartitionEffect db (db.setDraining queue owner.name partitions draining) pk
      (.setDraining queue owner partitions draining) [] := by
  rcases get?_map_ite db.partitions (fun p => p.key.queue = queue && p.owner = owner.name &&
    p.key.partition ∈ partitions) (fun p => { p with draining := draining })
    (fun p => by split <;> rfl) pk with hkeep | ⟨p, hp, hsel, hp'⟩
  · exact .keep hkeep
  · simp only [Bool.and_eq_true, decide_eq_true_eq] at hsel
    have hkey := key_of_get? hp
    exact .drain hp hp' (hkey ▸ hsel.1.1) hsel.1.2 (hkey ▸ hsel.2)

lemma releasePartitions_effect (db : Database) (queue : String) (owner : Owner)
    (partitions : List ℤ) (pk : PartitionKey) :
    PartitionEffect db (db.releasePartitions queue owner.name partitions) pk
      (.releasePartitions queue owner partitions) [] := by
  rcases get?_map_ite db.partitions (fun p => p.key.queue = queue && p.owner = owner.name &&
    p.key.partition ∈ partitions) giveUp (fun p => by split <;> rfl) pk with
    hkeep | ⟨p, hp, hsel, hp'⟩
  · exact .keep hkeep
  · simp only [Bool.and_eq_true, decide_eq_true_eq] at hsel
    have hkey := key_of_get? hp
    exact .release hp hp' (hkey ▸ hsel.1.1) hsel.1.2 (hkey ▸ hsel.2)

lemma leave_effect (db : Database) (queue : String) (owner : Owner) (pk : PartitionKey) :
    PartitionEffect db (db.leave queue owner.name) pk (.leave queue owner) [] := by
  rcases get?_map_ite db.partitions (fun p => p.key.queue = queue && p.owner = owner.name) giveUp
    (fun p => by split <;> rfl) pk with hkeep | ⟨p, hp, hsel, hp'⟩
  · exact .keep hkeep
  · rw [Bool.and_eq_true, decide_eq_true_eq, decide_eq_true_eq] at hsel
    exact .leave hp hp' (key_of_get? hp ▸ hsel.1) hsel.2

lemma acquirable_iff {queue : String} {nowMs : ℤ} {p : PartitionRow} :
    acquirable queue nowMs p = true ↔
      p.key.queue = queue ∧ (p.owner = "" ∨ p.leaseExpiresMs < nowMs) := by
  simp [acquirable]

/-- The partitions one `AcquirePartitions` takes. -/
def taken (db : Database) (sched : Sched) (queue : String) (nowMs : ℤ) (limit : ℕ)
    (p : PartitionRow) : Bool :=
  acquirable queue nowMs p && decide (p.key ∈ db.pickedPartitions sched queue nowMs limit)

lemma acquirePartitions_fst_perm (db : Database) (sched : Sched) (queue owner : String)
    (now ttl : Time) (limit : ℕ) :
    (db.acquirePartitions sched queue owner now ttl limit).1.Perm
      ((db.partitions.rows.filter (db.taken sched queue now.unixMilli limit)).map fun p =>
        ⟨p.key.partition, p.epoch + 1, false⟩) := by
  refine (List.perm_insertionSort _ _).trans ?_
  rw [List.map_map]
  exact List.Perm.refl _

lemma perm_toList {α : Type*} {l : List α} {o : Option α} (h : l.Perm o.toList) :
    l = o.toList := by
  cases o with
  | none => exact h.eq_nil
  | some a => exact perm_singleton.mp h

lemma acquirePartitions_effect (db : Database) (sched : Sched) (queue : String) (owner : Owner)
    (now ttl : Time) (limit : ℕ) (pk : PartitionKey) :
    ∃ evs, aboutPartition pk (db.events sched (.acquirePartitions queue owner now ttl limit)) =
        evs ∧ PartitionEffect db (db.acquirePartitions sched queue owner.name now ttl limit).2 pk
        (.acquirePartitions queue owner now ttl limit) evs := by
  set sel := db.taken sched queue now.unixMilli limit with hsel
  have hqueue : ∀ p, sel p = true → p.key.queue = queue := fun p hp =>
    (acquirable_iff.mp (Bool.and_eq_true _ _ ▸ hp).1).1
  have hevs : aboutPartition pk
      (db.events sched (.acquirePartitions queue owner now ttl limit)) =
      (((db.partitions.get? pk).filter sel).map fun p =>
        Event.acquired p.key.queue owner.name ⟨p.key.partition, p.epoch + 1, false⟩).toList := by
    refine perm_toList ?_
    rw [← filter_map_filter_rows db.partitions sel
      (fun p => Event.acquired p.key.queue owner.name ⟨p.key.partition, p.epoch + 1, false⟩)
      (g := Event.partition?) (fun _ => rfl) pk]
    refine List.Perm.filter _ ?_
    refine ((acquirePartitions_fst_perm db sched queue owner.name now ttl limit).map _).trans ?_
    rw [List.map_map]
    refine List.Perm.of_eq (List.map_congr_left fun p hp => ?_)
    rw [hqueue p (List.mem_filter.mp hp).2]
    rfl
  rcases get?_map_ite db.partitions sel (takeOver owner.name (Time.unixMilli (now + ttl)))
    (fun p => by split <;> rfl) pk with hkeep | ⟨p, hp, hs, hp'⟩
  · cases hp : db.partitions.get? pk with
    | none => exact ⟨[], by rw [hevs, hp]; rfl, .keep hkeep⟩
    | some p =>
      by_cases hs : sel p = true
      · -- the epoch of a taken row grows, so the row cannot have stayed as it was
        rw [get?_map, hp, map_some, if_pos hs, some.injEq] at hkeep
        have hepoch : p.epoch + 1 = p.epoch := congrArg PartitionRow.epoch hkeep
        omega
      · refine ⟨[], ?_, .keep hkeep⟩
        rw [hevs, hp, filter_some_neg (Bool.eq_false_iff.mpr hs)]
        rfl
  · have hkey := key_of_get? hp
    have hfree := (acquirable_iff.mp (Bool.and_eq_true _ _ ▸ hs).1).2
    have hq : pk.queue = queue := hkey ▸ hqueue p hs
    refine ⟨_, ?_, .acquire hp hp' hq hfree⟩
    rw [hevs, hp, filter_some_pos hs, map_some, hqueue p hs, hkey]
    rfl

/-- What one statement does to a partition. -/
theorem exec_partitionEffect {db db' : Database} {sched : Sched} {s : Stmt} {rep : Reply s}
    (h : db.exec sched s = some (rep, db')) (pk : PartitionKey) :
    ∃ evs, aboutPartition pk (db.events sched s) = evs ∧ PartitionEffect db db' pk s evs := by
  have hnone : ∀ {α : Type} (l : List α) (f : α → Event), (∀ a, (f a).partition? = none) →
      aboutPartition pk (l.map f) = [] := by
    intro α l f hf
    rw [aboutPartition, filter_eq_nil_iff]
    intro e he
    obtain ⟨a, -, rfl⟩ := mem_map.mp he
    simp [hf]
  cases s with
  | enqueue createdAt reqs =>
    obtain ⟨db₁, h₁, heq⟩ := map_eq_some_iff.mp h
    obtain ⟨t, -, rfl⟩ := map_eq_some_iff.mp h₁
    cases heq
    exact ⟨[], hnone _ _ fun _ => rfl, .keep rfl⟩
  | ensurePartitions queue =>
    have hdb : db.ensurePartitions queue = db' := congrArg Prod.snd (some.inj h)
    rw [← hdb]
    exact ⟨[], rfl, ensurePartitions_effect db queue pk⟩
  | renewLeases queue owner expires =>
    cases h
    exact ⟨[], rfl, renewLeases_effect db queue owner expires pk⟩
  | acquirePartitions queue owner now ttl limit =>
    cases h
    exact acquirePartitions_effect db sched queue owner now ttl limit pk
  | setDraining queue owner partitions draining =>
    cases h
    exact ⟨[], rfl, setDraining_effect db queue owner partitions draining pk⟩
  | releasePartitions queue owner partitions =>
    cases h
    exact ⟨[], rfl, releasePartitions_effect db queue owner partitions pk⟩
  | leave queue owner =>
    cases h
    exact ⟨[], rfl, leave_effect db queue owner pk⟩
  | dispatch | undispatch | retry | resetStale | ack =>
    cases h
    exact ⟨[], hnone _ _ fun _ => rfl, .keep rfl⟩
  | _ =>
    cases h
    exact ⟨[], rfl, .keep rfl⟩

end Database

end LlmdAsync.SqlQueue
