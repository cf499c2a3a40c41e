import LlmdAsync.SqlQueue.Live

/-!
# Owning a partition

A dispatcher owns a partition at an epoch while the partition row says so.  Owning begins with an
acquisition, at an epoch that is new to the partition, so an epoch that a dispatcher has lost never
comes back to it.  The leases that `Heartbeat` and `AcquirePartitions` return are what is owned.
-/

namespace LlmdAsync.SqlQueue

open List Option Table

/-- The partition is owned by `c` at epoch `e`. -/
def Database.Owns (db : Database) (c : Owner) (pk : PartitionKey) (e : ℤ) : Prop :=
  ∃ p, db.partitions.get? pk = some p ∧ p.owner = c.name ∧ p.epoch = e

namespace Database

variable {db db' : Database} {c : Owner} {pk : PartitionKey} {e e' : ℤ}

lemma Owns.epoch_eq (h : db.Owns c pk e) (h' : db.Owns c pk e') : e = e' := by
  obtain ⟨p, hp, -, he⟩ := h
  obtain ⟨p', hp', -, he'⟩ := h'
  rw [hp, some.injEq] at hp'
  rw [← he, ← he', hp']

lemma Owns.epochOf_eq (h : db.Owns c pk e) : db.epochOf pk = e := by
  obtain ⟨p, hp, -, he⟩ := h
  rw [epochOf_of_some hp, he]

lemma owns_of_exec {sched : Sched} {s : Stmt} {rep : Reply s}
    (h : db.exec sched s = some (rep, db')) (ho : db'.Owns c pk e) :
    db.Owns c pk e ∨
      (∃ now ttl limit, s = .acquirePartitions pk.queue c now ttl limit) ∧ db.epochOf pk < e := by
  obtain ⟨p', hp', howner, rfl⟩ := ho
  obtain ⟨evs, -, heff⟩ := db.exec_partitionEffect h pk
  cases heff with
  | keep hkeep => exact .inl ⟨p', hkeep ▸ hp', howner, rfl⟩
  | create hp hp'' hnone =>
    rw [hp'', some.injEq] at hp'
    subst hp'
    exact absurd (howner.symm.trans hnone) c.name_ne
  | renew hp hp'' | drain hp hp'' =>
    rw [hp'', some.injEq] at hp'
    subst hp'
    exact .inl ⟨_, hp, howner, rfl⟩
  | release hp hp'' | leave hp hp'' =>
    rw [hp'', some.injEq] at hp'
    subst hp'
    exact absurd howner.symm c.name_ne
  | acquire hp hp'' hqueue =>
    rw [hp'', some.injEq] at hp'
    subst hp'
    have hc := Owner.eq_of_name_eq howner
    subst hc
    refine .inr ⟨⟨_, _, _, by rw [hqueue]⟩, ?_⟩
    rw [epochOf_of_some hp]
    exact Int.lt_add_one_of_le (le_refl _)

lemma not_owns_of_exec {sched : Sched} {s : Stmt} {rep : Reply s}
    (h : db.exec sched s = some (rep, db')) (hle : e ≤ db.epochOf pk) (ho : ¬db.Owns c pk e) :
    ¬db'.Owns c pk e := by
  intro ho'
  rcases owns_of_exec h ho' with hold | ⟨-, hlt⟩
  · exact ho hold
  · exact absurd hlt (not_lt_of_ge hle)

/-! ### Returned leases -/

lemma mem_leasesOf {ps : List PartitionRow} {l : Lease} :
    l ∈ leasesOf ps ↔ ∃ p ∈ ps, p.toLease = l := by
  rw [leasesOf, List.mem_insertionSort, List.mem_map]

lemma nodup_leasesOf {sel : PartitionRow → Bool} {f : PartitionRow → PartitionRow} {queue : String}
    (hf : ∀ p, (f p).key = p.key) (hsel : ∀ p, sel p = true → p.key.queue = queue) :
    ((leasesOf ((db.partitions.rows.filter sel).map f)).map Lease.partition).Nodup := by
  unfold leasesOf
  rw [((List.perm_insertionSort _ _).map _).nodup_iff, List.map_map, List.map_map]
  have hkeys : ((db.partitions.rows.filter sel).map PartitionRow.key).Nodup :=
    db.partitions.nodup.sublist (List.filter_sublist.map _)
  refine List.Nodup.of_map (fun n : ℤ => (⟨queue, n⟩ : PartitionKey)) ?_
  rw [List.map_map]
  convert hkeys using 1
  refine List.map_congr_left fun p hp => ?_
  show (⟨queue, (f p).key.partition⟩ : PartitionKey) = p.key
  rw [hf, ← hsel p (List.mem_filter.mp hp).2]

lemma mem_renewLeases {queue : String} {expires : ℤ} {l : Lease} :
    l ∈ (db.renewLeases queue c.name expires).1 ↔
      ∃ row, db.partitions.get? ⟨queue, l.partition⟩ = some row ∧ row.owner = c.name ∧
        row.toLease = l := by
  have hsel : ∀ p : PartitionRow,
      (decide (p.key.queue = queue) && decide (p.owner = c.name)) = true ↔
        p.key.queue = queue ∧ p.owner = c.name := by
    intro p
    rw [Bool.and_eq_true, decide_eq_true_eq, decide_eq_true_eq]
  constructor
  · intro hl
    obtain ⟨row, hrow, rfl⟩ := mem_leasesOf.mp hl
    obtain ⟨hmem, hs⟩ := List.mem_filter.mp hrow
    obtain ⟨hq, ho⟩ := (hsel row).mp hs
    refine ⟨row, Table.get?_eq_some.mpr ⟨hmem, ?_⟩, ho, rfl⟩
    rw [← hq]
    rfl
  · rintro ⟨row, hrow, ho, rfl⟩
    obtain ⟨hmem, hkey⟩ := Table.get?_eq_some.mp hrow
    refine mem_leasesOf.mpr ⟨row, List.mem_filter.mpr ⟨hmem, ?_⟩, rfl⟩
    rw [hsel, hkey]
    exact ⟨rfl, ho⟩

lemma nodup_renewLeases (db : Database) (owner queue : String) (expires : ℤ) :
    ((db.renewLeases queue owner expires).1.map Lease.partition).Nodup := by
  have hnd := @nodup_leasesOf db (fun p => p.key.queue = queue && p.owner = owner) id queue
    (fun _ => rfl) fun p hp => by
      rw [Bool.and_eq_true, decide_eq_true_eq] at hp
      exact hp.1
  rwa [List.map_id] at hnd

lemma renewLeases_spec (db : Database) (c : Owner) (queue : String) (expires : ℤ) :
    ((db.renewLeases queue c.name expires).1.map Lease.partition).Nodup ∧
      ∀ p e, db.Owns c ⟨queue, p⟩ e ↔
        ∃ l ∈ (db.renewLeases queue c.name expires).1, l.partition = p ∧ l.epoch = e := by
  refine ⟨nodup_renewLeases db c.name queue expires, fun p e => ⟨?_, ?_⟩⟩
  · rintro ⟨row, hrow, ho, rfl⟩
    have hpart : row.toLease.partition = p := by
      show row.key.partition = p
      rw [key_of_get? hrow]
    refine ⟨row.toLease, mem_renewLeases.mpr ⟨row, ?_, ho, rfl⟩, hpart, rfl⟩
    rw [hpart]
    exact hrow
  · rintro ⟨l, hl, rfl, rfl⟩
    obtain ⟨row, hrow, ho, rfl⟩ := mem_renewLeases.mp hl
    exact ⟨row, hrow, ho, rfl⟩

lemma get?_renewLeases (queue owner : String) (expires : ℤ) (pk : PartitionKey) :
    (db.renewLeases queue owner expires).2.partitions.get? pk =
      (db.partitions.get? pk).map fun p => if p.key.queue = queue && p.owner = owner then
        { p with leaseExpiresMs := expires } else p := by
  rw [renewLeases, get?_map]

lemma get?_setDraining (queue owner : String) (ps : List ℤ) (draining : Bool) (pk : PartitionKey) :
    (db.setDraining queue owner ps draining).partitions.get? pk =
      (db.partitions.get? pk).map fun p =>
        if p.key.queue = queue && p.owner = owner && p.key.partition ∈ ps then
          { p with draining := draining }
        else p := by
  rw [setDraining, get?_map]

lemma get?_releasePartitions (queue owner : String) (ps : List ℤ) (pk : PartitionKey) :
    (db.releasePartitions queue owner ps).partitions.get? pk =
      (db.partitions.get? pk).map fun p =>
        if p.key.queue = queue && p.owner = owner && p.key.partition ∈ ps then giveUp p
        else p := by
  rw [releasePartitions, get?_map]

lemma acquirePartitions_fst (sched : Sched) (queue owner : String) (now ttl : Time) (limit : ℕ) :
    (db.acquirePartitions sched queue owner now ttl limit).1 =
      leasesOf ((db.partitions.rows.filter (db.taken sched queue now.unixMilli limit)).map
        (takeOver owner (Time.unixMilli (now + ttl)))) := rfl

lemma get?_acquirePartitions (sched : Sched) (queue owner : String) (now ttl : Time) (limit : ℕ)
    (pk : PartitionKey) :
    (db.acquirePartitions sched queue owner now ttl limit).2.partitions.get? pk =
      (db.partitions.get? pk).map fun p => if db.taken sched queue now.unixMilli limit p then
        takeOver owner (Time.unixMilli (now + ttl)) p else p := by
  rw [acquirePartitions, get?_map]
  rfl

lemma queue_of_taken {sched : Sched} {queue : String} {nowMs : ℤ} {limit : ℕ} {p : PartitionRow}
    (h : db.taken sched queue nowMs limit p = true) : p.key.queue = queue := by
  rw [taken, Bool.and_eq_true] at h
  exact (acquirable_iff.mp h.1).1

lemma nodup_acquirePartitions (sched : Sched) (queue owner : String) (now ttl : Time) (limit : ℕ) :
    ((db.acquirePartitions sched queue owner now ttl limit).1.map Lease.partition).Nodup := by
  rw [acquirePartitions_fst]
  exact nodup_leasesOf (fun _ => rfl) fun _ => queue_of_taken

lemma owns_of_mem_acquirePartitions {sched : Sched} {queue : String} {now ttl : Time} {limit : ℕ}
    {l : Lease} (hl : l ∈ (db.acquirePartitions sched queue c.name now ttl limit).1) :
    (db.acquirePartitions sched queue c.name now ttl limit).2.Owns c ⟨queue, l.partition⟩ l.epoch ∧
      db.epochOf ⟨queue, l.partition⟩ < l.epoch := by
  rw [acquirePartitions_fst] at hl
  obtain ⟨row, hrow, rfl⟩ := mem_leasesOf.mp hl
  obtain ⟨p, hp, rfl⟩ := List.mem_map.mp hrow
  obtain ⟨hmem, hs⟩ := List.mem_filter.mp hp
  have hget : db.partitions.get? ⟨queue, p.key.partition⟩ = some p := by
    rw [Table.get?_eq_some, ← queue_of_taken hs]
    exact ⟨hmem, rfl⟩
  refine ⟨⟨takeOver c.name (Time.unixMilli (now + ttl)) p, ?_, rfl, rfl⟩, ?_⟩
  · show (db.acquirePartitions sched queue c.name now ttl limit).2.partitions.get?
      ⟨queue, p.key.partition⟩ = _
    rw [get?_acquirePartitions, hget, map_some, if_pos hs]
  · show db.epochOf ⟨queue, p.key.partition⟩ < p.epoch + 1
    rw [epochOf_of_some hget]
    exact Int.lt_add_one_of_le (le_refl _)

lemma owns_acquirePartitions {sched : Sched} {queue : String} {now ttl : Time} {limit : ℕ} {p : ℤ}
    (h : (db.acquirePartitions sched queue c.name now ttl limit).2.Owns c ⟨queue, p⟩ e) :
    db.Owns c ⟨queue, p⟩ e ∨ ∃ l ∈ (db.acquirePartitions sched queue c.name now ttl limit).1,
        l.partition = p ∧ l.epoch = e := by
  obtain ⟨row', hrow', ho, rfl⟩ := h
  rw [get?_acquirePartitions] at hrow'
  obtain ⟨row, hrow, rfl⟩ := map_eq_some_iff.mp hrow'
  obtain ⟨hmem, hkey⟩ := get?_eq_some.mp hrow
  by_cases hs : db.taken sched queue now.unixMilli limit row = true
  · rw [if_pos hs]
    refine .inr ⟨(takeOver c.name (Time.unixMilli (now + ttl)) row).toLease, ?_, ?_, rfl⟩
    · rw [acquirePartitions_fst]
      exact mem_leasesOf.mpr ⟨_, List.mem_map_of_mem (List.mem_filter.mpr ⟨hmem, hs⟩), rfl⟩
    · show row.key.partition = p
      rw [hkey]
  · rw [if_neg hs] at ho ⊢
    exact .inl ⟨row, hrow, ho, rfl⟩

lemma not_owns_releasePartitions {queue : String} {ps : List ℤ} {p : ℤ} (hp : p ∈ ps) :
    ¬(db.releasePartitions queue c.name ps).Owns c ⟨queue, p⟩ e := by
  rintro ⟨row', hrow', ho, -⟩
  rw [get?_releasePartitions] at hrow'
  obtain ⟨row, hrow, rfl⟩ := map_eq_some_iff.mp hrow'
  have hkey := key_of_get? hrow
  split at ho
  · exact c.name_ne ho.symm
  next hsel =>
    simp only [Bool.and_eq_true, decide_eq_true_eq] at hsel
    exact hsel ⟨⟨by rw [hkey], ho⟩, by rw [hkey]; exact hp⟩

lemma not_owns_leave {queue : String} {p : ℤ} :
    ¬(db.leave queue c.name).Owns c ⟨queue, p⟩ e := by
  rintro ⟨row', hrow', ho, -⟩
  rw [leave, get?_map] at hrow'
  obtain ⟨row, hrow, rfl⟩ := map_eq_some_iff.mp hrow'
  have hkey := key_of_get? hrow
  split at ho
  · exact c.name_ne ho.symm
  next hsel =>
    simp only [Bool.and_eq_true, decide_eq_true_eq] at hsel
    exact hsel ⟨by rw [hkey], ho⟩

lemma owns_of_mem_dispatch {sched : Sched} {queue : String} {now : Time} {limit : ℕ} {q : Request}
    (h : q ∈ (db.dispatch sched queue c.name now limit).1) :
    db.Owns c ⟨queue, q.partition⟩ q.epoch := by
  obtain ⟨hk, hrow⟩ := mem_dispatch.mp h
  obtain ⟨r, p, hr, hq, -, hp, ho, -⟩ := mem_draws hk
  have hkey := key_of_get? hr
  rw [get?_dispatch, hr, map_some, stampRow_of_mem hp (hkey.symm ▸ hk), map_some,
    some.injEq] at hrow
  rw [← hrow, ← hq]
  exact ⟨p, hp, ho, rfl⟩

end Database

end LlmdAsync.SqlQueue
