import LlmdAsync.SqlQueue.History

/-!
# What each statement does to a request

The statements of `Store` are described key by key: `RowEffect` lists everything that can happen to
the row of one key, together with the events that are logged about it, and `exec_rowEffect` shows
that every statement has one of these effects on every key.  The invariants of the transport use
this description and never unfold a statement.
-/

namespace LlmdAsync.SqlQueue

open List Option Table Event Request

/-- A fresh row: never dispatched, placed by the hash of its id. -/
structure RequestRow.IsFresh (r : RequestRow) : Prop where
  epoch_eq : r.dispatchEpoch = 0
  attempt_eq : r.dispatchAttempt = 0
  partition_eq : r.partition = partitionOf r.key.id

namespace Database

/-! ### Enqueue -/

variable {db : Database} {createdAt : ℤ} {queue owner : String} {r : RequestRow}
  {cs : List Completion} {c : Completion}

lemma rows_foldlM_insertAll {κ ρ α : Type*} {key : ρ → κ} [DecidableEq κ] {f : α → List ρ}
    {l : List α} {t t' : Table key} (h : l.foldlM (fun t a => t.insertAll (f a)) t = some t') :
    t'.rows = t.rows ++ l.flatMap f := by
  induction l generalizing t with
  | nil =>
    rw [foldlM_nil, Option.pure_def, Option.some.injEq] at h
    simp [h]
  | cons a l ih =>
    rw [foldlM_cons] at h
    obtain ⟨t₁, h₁, h₂⟩ := bind_eq_some_iff.mp h
    rw [ih h₂, (insertAll_eq_some h₁).1, flatMap_cons, append_assoc]

lemma flatMap_take_drop {α : Type*} (l : List α) (c n : ℕ) :
    ((range n).map (· * c)).flatMap (fun s => (l.drop s).take c) = l.take (n * c) := by
  induction n with
  | zero => simp
  | succ n ih =>
    rw [range_succ, map_append, flatMap_append, ih, Nat.succ_mul, take_add]
    simp

lemma flatMap_enqueueStarts (reqs : List Request) :
    (enqueueStarts reqs).flatMap (fun s => (reqs.drop s).take enqueueChunk) = reqs := by
  unfold enqueueStarts
  rw [flatMap_take_drop, take_of_length_le]
  unfold enqueueChunk
  omega

lemma map_key_flatMap_enqueueChunkRows (createdAt : ℤ) (reqs : List Request) :
    ((enqueueStarts reqs).flatMap (enqueueChunkRows createdAt reqs)).map RequestRow.key =
      reqs.map key := by
  have hchunk : ∀ s, (enqueueChunkRows createdAt reqs s).map RequestRow.key =
      ((reqs.drop s).take enqueueChunk).map key := by
    intro s
    unfold enqueueChunkRows
    rw [List.map_map]
    conv_rhs => rw [← List.zipIdx_map_fst 0 ((reqs.drop s).take enqueueChunk), List.map_map]
    rfl
  rw [map_flatMap]
  simp only [hchunk]
  rw [← map_flatMap, flatMap_enqueueStarts]

lemma enqueue_spec {db' : Database} {reqs : List Request}
    (h : db.enqueue createdAt reqs = some db') :
    (∃ new : List RequestRow, db'.requests.rows = db.requests.rows ++ new ∧
      new.map RequestRow.key = reqs.map key ∧ ∀ r ∈ new, r.IsFresh) ∧
    db' = { db with requests := db'.requests } := by
  unfold enqueue at h
  obtain ⟨t, ht, rfl⟩ := map_eq_some_iff.mp h
  refine ⟨⟨_, rows_foldlM_insertAll ht, map_key_flatMap_enqueueChunkRows createdAt reqs, ?_⟩, rfl⟩
  intro r hr
  obtain ⟨s, -, hs⟩ := mem_flatMap.mp hr
  obtain ⟨ri, -, rfl⟩ := mem_map.mp hs
  exact ⟨rfl, rfl, rfl⟩

lemma get?_enqueue {db' : Database} {reqs : List Request} (h : db.enqueue createdAt reqs = some db')
    (k : Key) :
    db'.requests.get? k = db.requests.get? k ∧ k ∉ reqs.map key ∨
      db.requests.get? k = none ∧ (reqs.map key).count k = 1 ∧
        ∃ r, db'.requests.get? k = some r ∧ r.IsFresh := by
  obtain ⟨⟨new, hrows, hkeys, hfresh⟩, -⟩ := enqueue_spec h
  have hnd : ((db.requests.rows ++ new).map RequestRow.key).Nodup := hrows ▸ db'.requests.nodup
  rw [map_append, nodup_append] at hnd
  rw [← hkeys]
  by_cases hk : k ∈ new.map RequestRow.key
  · right
    obtain ⟨r, hr, rfl⟩ := mem_map.mp hk
    refine ⟨?_, count_eq_one_of_mem hnd.2.1 hk, r, ?_, hfresh r hr⟩
    · rw [get?_eq_none]
      intro r' hr' heq
      exact hnd.2.2 _ (mem_map_of_mem hr') _ hk heq
    · rw [get?_eq_some]
      exact ⟨by rw [← mem_rows, hrows]; exact mem_append_right _ hr, rfl⟩
  · left
    refine ⟨?_, hk⟩
    have hnone : new.find? (fun r => decide (r.key = k)) = none := by
      rw [find?_eq_none]
      intro r hr heq
      exact hk (mem_map.mpr ⟨r, hr, by simpa using heq⟩)
    simp [get?, hrows, find?_append, hnone]

/-! ### Dispatch -/

lemma mem_activePartitions {p : ℤ} :
    p ∈ db.activePartitions queue owner ↔
      ∃ row, db.partitions.get? ⟨queue, p⟩ = some row ∧ row.owner = owner ∧
        row.draining = false := by
  unfold activePartitions
  rw [List.mem_map]
  constructor
  · rintro ⟨row, hrow, rfl⟩
    rw [List.mem_filter] at hrow
    obtain ⟨hmem, hp⟩ := hrow
    simp only [Bool.and_eq_true, decide_eq_true_eq, Bool.not_eq_true'] at hp
    refine ⟨row, ?_, hp.1.2, hp.2⟩
    rw [get?_eq_some]
    refine ⟨hmem, ?_⟩
    rw [← hp.1.1]
  · rintro ⟨row, hrow, howner, hdrain⟩
    obtain ⟨hmem, hkey⟩ := get?_eq_some.mp hrow
    refine ⟨row, List.mem_filter.mpr ⟨hmem, ?_⟩, by rw [hkey]⟩
    simp [hkey, howner, hdrain]

lemma dispatchable_iff {now : ℤ} :
    db.dispatchable owner queue now r = true ↔
      r.queue = queue ∧ r.dispatchEpoch = 0 ∧ r.notBefore ≤ now ∧
        ∃ p, db.partitionOfRow r = some p ∧ p.owner = owner ∧ p.draining = false := by
  unfold dispatchable partitionOfRow RequestRow.partitionKey
  simp only [Bool.and_eq_true, decide_eq_true_eq, mem_activePartitions, and_assoc]
  constructor
  · rintro ⟨rfl, h₁, h₂, h₃⟩
    exact ⟨rfl, h₁, h₂, h₃⟩
  · rintro ⟨rfl, h₁, h₂, h₃⟩
    exact ⟨rfl, h₁, h₂, h₃⟩

lemma mem_draws {sched : Sched} {now : ℤ} {limit : ℕ} {k : Key}
    (h : k ∈ db.draws sched owner queue now limit) :
    ∃ r p, db.requests.get? k = some r ∧ r.queue = queue ∧ r.dispatchEpoch = 0 ∧
      db.partitionOfRow r = some p ∧ p.owner = owner ∧ p.draining = false := by
  unfold draws at h
  rw [List.mem_insertionSort, List.mem_map] at h
  obtain ⟨r, hr, rfl⟩ := h
  have hpick := List.mem_of_mem_take (List.mem_filter.mp hr).1
  rw [List.mem_insertionSort, List.mem_filter] at hpick
  obtain ⟨hmem, hdue⟩ := hpick
  rw [Bool.and_eq_true] at hdue
  obtain ⟨hq, he, -, p, hp, ho, hd⟩ := dispatchable_iff.mp hdue.1
  exact ⟨r, p, mem_iff_get?.mp hmem, hq, he, hp, ho, hd⟩

lemma nodup_draws (db : Database) (sched : Sched) (owner queue : String) (now : ℤ) (limit : ℕ) :
    (db.draws sched owner queue now limit).Nodup := by
  unfold draws
  rw [(perm_insertionSort _ _).nodup_iff]
  refine List.Nodup.sublist (filter_sublist.map _) ?_
  refine List.Nodup.sublist ((take_sublist _ _).map _) ?_
  rw [((perm_insertionSort _ _).map _).nodup_iff]
  exact db.requests.nodup.sublist (filter_sublist.map _)

lemma stampRow_of_mem {draws : List Key} {p : PartitionRow} (hp : db.partitionOfRow r = some p)
    (hk : r.key ∈ draws) :
    db.stampRow draws r = { r with
      dispatchEpoch := p.epoch
      dispatchAttempt := db.nextAttempt + draws.idxOf r.key } := by
  simp [stampRow, hp, hk]

lemma stampRow_of_not_mem {draws : List Key} (hk : r.key ∉ draws) : db.stampRow draws r = r := by
  unfold stampRow
  split
  · rw [if_neg hk]
  · rfl

lemma get?_dispatch (db : Database) (sched : Sched) (queue owner : String) (now : Time)
    (limit : ℕ) (k : Key) :
    (db.dispatch sched queue owner now limit).2.requests.get? k =
      (db.requests.get? k).map (db.stampRow (db.draws sched owner queue now.unix limit)) := by
  simp [dispatch]

lemma mem_dispatch {sched : Sched} {now : Time} {limit : ℕ} {q : Request} :
    q ∈ (db.dispatch sched queue owner now limit).1 ↔
      q.key ∈ db.draws sched owner queue now.unix limit ∧
        ((db.dispatch sched queue owner now limit).2.requests.get? q.key).map
          RequestRow.toRequest = some q := by
  simp only [dispatch, List.mem_insertionSort, List.mem_map, List.mem_filter, mem_rows,
    decide_eq_true_eq, map_eq_some_iff, get?_eq_some]
  constructor
  · rintro ⟨r, ⟨hr, hk⟩, rfl⟩
    exact ⟨hk, r, ⟨hr, rfl⟩, rfl⟩
  · rintro ⟨hk, r, ⟨hr, hrk⟩, rfl⟩
    exact ⟨r, ⟨hr, hk⟩, rfl⟩

lemma nodup_map_key_dispatch (db : Database) (sched : Sched) (queue owner : String) (now : Time)
    (limit : ℕ) : ((db.dispatch sched queue owner now limit).1.map key).Nodup := by
  simp only [dispatch]
  rw [((List.perm_insertionSort _ _).map _).nodup_iff, List.map_map]
  exact (nodup _).sublist (List.filter_sublist.map _)

/-! ### Ack -/

lemma nodup_keepLargest {unique : List (Completion × ℕ)} (ci : Completion × ℕ)
    (h : (unique.map fun u => u.1.key).Nodup) :
    ((keepLargest unique ci).map fun u => u.1.key).Nodup := by
  unfold keepLargest
  split
  next hany =>
    have hkeys : (unique.map fun u => if u.1.key = ci.1.key then
        (if u.1.attempt < ci.1.attempt then ci else u) else u).map (fun u => u.1.key) =
          unique.map fun u => u.1.key := by
      rw [List.map_map]
      refine map_congr_left fun u _ => ?_
      show (if u.1.key = ci.1.key then (if u.1.attempt < ci.1.attempt then ci else u) else u).1.key
        = u.1.key
      split
      · split <;> simp [*]
      · rfl
    rwa [hkeys]
  next hany =>
    rw [map_append, nodup_append]
    refine ⟨h, by simp, ?_⟩
    intro k hk k' hk' heq
    obtain ⟨u, hu, rfl⟩ := mem_map.mp hk
    have hk' : k' = ci.1.key := by simpa using hk'
    exact hany (any_eq_true.mpr ⟨u, hu, by simp [heq, hk']⟩)

lemma nodup_uniqueCompletions (cs : List Completion) :
    (((uniqueCompletions cs).map Prod.fst).map Completion.key).Nodup := by
  rw [List.map_map]
  suffices h : ∀ (l unique : List (Completion × ℕ)), (unique.map fun u => u.1.key).Nodup →
      ((l.foldl keepLargest unique).map fun u => u.1.key).Nodup from h _ _ (by simp)
  intro l
  induction l with
  | nil => exact fun _ h => h
  | cons ci l ih => exact fun unique h => ih _ (nodup_keepLargest ci h)

lemma mem_uniqueCompletions {u : Completion × ℕ} (h : u ∈ uniqueCompletions cs) : u ∈ cs.zipIdx:= by
  have hstep : ∀ (unique : List (Completion × ℕ)) (ci : Completion × ℕ),
      ∀ u ∈ keepLargest unique ci, u = ci ∨ u ∈ unique := by
    intro unique ci u hu
    unfold keepLargest at hu
    split at hu
    · obtain ⟨v, hv, rfl⟩ := mem_map.mp hu
      split
      · split
        · exact .inl rfl
        · exact .inr hv
      · exact .inr hv
    · rcases mem_append.mp hu with hu | hu
      · exact .inr hu
      · exact .inl (mem_singleton.mp hu)
  suffices hfold : ∀ (l unique : List (Completion × ℕ)), u ∈ l.foldl keepLargest unique →
      u ∈ l ∨ u ∈ unique from (hfold _ _ h).resolve_right not_mem_nil
  intro l
  induction l with
  | nil => exact fun _ hu => .inr hu
  | cons ci l ih =>
    intro unique hu
    rcases ih _ hu with hu | hu
    · exact .inl (mem_cons_of_mem _ hu)
    · rcases hstep _ _ _ hu with rfl | hu
      · exact .inl mem_cons_self
      · exact .inr hu

lemma mem_of_mem_uniqueCompletions (h : c ∈ (uniqueCompletions cs).map Prod.fst) : c ∈ cs := by
  obtain ⟨u, hu, rfl⟩ := mem_map.mp h
  exact fst_mem_of_mem_zipIdx (mem_uniqueCompletions hu)

lemma exists_keepLargest_ge_new (unique : List (Completion × ℕ)) (ci : Completion × ℕ) :
    ∃ u ∈ keepLargest unique ci, u.1.key = ci.1.key ∧ ci.1.attempt ≤ u.1.attempt := by
  unfold keepLargest
  split
  next hany =>
    obtain ⟨v, hv, hkey⟩ := any_eq_true.mp hany
    rw [decide_eq_true_eq] at hkey
    refine ⟨_, mem_map_of_mem hv, ?_⟩
    simp only [if_pos hkey]
    split
    · exact ⟨rfl, le_refl _⟩
    next hlt =>
      exact ⟨hkey, le_of_not_gt hlt⟩
  · exact ⟨ci, mem_append_right _ mem_cons_self, rfl, le_refl _⟩

lemma exists_keepLargest_ge_old {unique : List (Completion × ℕ)} (ci : Completion × ℕ)
    {u : Completion × ℕ} (hu : u ∈ unique) :
    ∃ u' ∈ keepLargest unique ci, u'.1.key = u.1.key ∧ u.1.attempt ≤ u'.1.attempt := by
  unfold keepLargest
  split
  · refine ⟨_, mem_map_of_mem hu, ?_⟩
    by_cases hkey : u.1.key = ci.1.key
    · simp only [if_pos hkey]
      split
      next hlt =>
        exact ⟨hkey.symm, le_of_lt hlt⟩
      · exact ⟨rfl, le_refl _⟩
    · simp only [if_neg hkey]
      exact ⟨trivial, le_refl _⟩
  · exact ⟨u, mem_append_left _ hu, rfl, le_refl _⟩

lemma exists_uniqueCompletions_ge (h : c ∈ cs) :
    ∃ u ∈ uniqueCompletions cs, u.1.key = c.key ∧ c.attempt ≤ u.1.attempt := by
  have hfold : ∀ (l unique : List (Completion × ℕ)),
      (∀ u ∈ unique, ∃ u' ∈ l.foldl keepLargest unique,
        u'.1.key = u.1.key ∧ u.1.attempt ≤ u'.1.attempt) ∧
      ∀ ci ∈ l, ∃ u' ∈ l.foldl keepLargest unique,
        u'.1.key = ci.1.key ∧ ci.1.attempt ≤ u'.1.attempt := by
    intro l
    induction l with
    | nil => exact fun unique => ⟨fun u hu => ⟨u, hu, rfl, le_refl _⟩, by simp⟩
    | cons ci l ih =>
      intro unique
      obtain ⟨hold, hnew⟩ := ih (keepLargest unique ci)
      -- what one round keeps, the remaining rounds keep
      have hthen : ∀ {a : Completion}, (∃ u ∈ keepLargest unique ci,
          u.1.key = a.key ∧ a.attempt ≤ u.1.attempt) → ∃ u' ∈ (ci :: l).foldl keepLargest unique,
          u'.1.key = a.key ∧ a.attempt ≤ u'.1.attempt := by
        rintro a ⟨u, hu, hkey, hatt⟩
        obtain ⟨u', hu', hkey', hatt'⟩ := hold u hu
        exact ⟨u', hu', hkey'.trans hkey, hatt.trans hatt'⟩
      refine ⟨fun u hu => hthen (exists_keepLargest_ge_old ci hu), fun cj hcj => ?_⟩
      rcases mem_cons.mp hcj with rfl | hcj
      · exact hthen (exists_keepLargest_ge_new unique cj)
      · exact hnew cj hcj
  rw [← zipIdx_map_fst 0 cs] at h
  obtain ⟨ci, hci, rfl⟩ := mem_map.mp h
  exact (hfold cs.zipIdx []).2 ci hci

lemma completes_iff :
    db.completes owner c r = true ↔
      r.key = c.key ∧ 0 < r.dispatchEpoch ∧ r.dispatchAttempt = c.attempt ∧
        ∃ p, db.partitionOfRow r = some p ∧ p.owner = owner ∧ p.epoch = r.dispatchEpoch := by
  simp [completes, Option.any_eq_true, and_assoc]

lemma filter_key_of_completes {input : List Completion}
    (hnd : (input.map Completion.key).Nodup) (hc : c ∈ input)
    (h : db.completes owner c r = true) : input.filter (fun c => c.key = r.key) = [c] := by
  rw [(completes_iff.mp h).1]
  exact filter_key_eq_singleton hnd hc

lemma map_key_doneCompletions {input : List Completion} (hnd : (input.map Completion.key).Nodup) :
    (db.doneCompletions owner input).map Completion.key =
      (db.doneRows owner input).map RequestRow.key := by
  unfold doneCompletions
  have hone : ∀ r ∈ db.doneRows owner input,
      (input.filter fun c => c.key = r.key).map Completion.key = [r.key] := by
    intro r hr
    obtain ⟨c, hc, hcr⟩ := List.any_eq_true.mp (List.mem_filter.mp hr).2
    rw [filter_key_of_completes hnd hc hcr, (completes_iff.mp hcr).1]
    rfl
  rw [List.map_flatMap]
  generalize db.doneRows owner input = rows at hone
  induction rows with
  | nil => rfl
  | cons r rows ih =>
    rw [flatMap_cons, hone r mem_cons_self, ih fun r' hr' => hone r' (mem_cons_of_mem _ hr')]
    rfl

lemma nodup_map_key_ackResults (db : Database) (owner : String) (cs : List Completion)
    (createdAt : ℤ) : ((db.ackResults owner cs createdAt).map fun ar => ar.2.key).Nodup := by
  have hkeys : (db.ackResults owner cs createdAt).map (fun ar => ar.2.key) =
      (db.doneCompletions owner ((uniqueCompletions cs).map Prod.fst)).map Completion.key := by
    unfold ackResults
    rw [List.map_map]
    conv_rhs => rw [← List.zipIdx_map_fst 0 (db.doneCompletions _ _), List.map_map]
    rfl
  rw [hkeys, map_key_doneCompletions (nodup_uniqueCompletions cs)]
  exact db.requests.nodup.sublist (filter_sublist.map _)

lemma mem_ackResults {ar : ℤ × ResultRow} (h : ar ∈ db.ackResults owner cs createdAt) :
    ∃ r, db.requests.get? ar.2.key = some r ∧
      ((uniqueCompletions cs).map Prod.fst).any (db.completes owner · r) = true := by
  obtain ⟨ci, hci, rfl⟩ := mem_map.mp h
  obtain ⟨r, hr, hc⟩ := List.mem_flatMap.mp (List.fst_mem_of_mem_zipIdx hci)
  obtain ⟨hmem, hany⟩ := List.mem_filter.mp hr
  refine ⟨r, ?_, hany⟩
  rw [get?_eq_some]
  have hkey : ci.1.key = r.key := by simpa using (mem_filter.mp hc).2
  exact ⟨hmem, hkey.symm⟩

lemma exists_ackResults_of_completes (createdAt : ℤ) (hr : r ∈ db.requests)
    (hany : ((uniqueCompletions cs).map Prod.fst).any (db.completes owner · r) = true) :
    ∃ res, res.key = r.key ∧ (r.dispatchAttempt, res) ∈ db.ackResults owner cs createdAt := by
  obtain ⟨c, hc, hcr⟩ := any_eq_true.mp hany
  obtain ⟨hkey, -, hatt, -⟩ := completes_iff.mp hcr
  have hdone : c ∈ db.doneCompletions owner ((uniqueCompletions cs).map Prod.fst) :=
    List.mem_flatMap.mpr ⟨r, List.mem_filter.mpr ⟨hr, hany⟩,
      mem_filter.mpr ⟨hc, by simp [hkey]⟩⟩
  rw [← zipIdx_map_fst 0 (db.doneCompletions _ _)] at hdone
  obtain ⟨ci, hci, rfl⟩ := mem_map.mp hdone
  refine ⟨resultRow createdAt (db.nextSeq + ci.2) ci.1, hkey.symm, ?_⟩
  rw [hatt]
  exact mem_map.mpr ⟨ci, hci, rfl⟩

end Database

/-! ### The effect of a statement on one request -/

/-- Everything a statement `s` that turns `db` into `db'` can do to the row of the key `k`, with
the events it logs about that key. -/
inductive RowEffect (db db' : Database) (k : Key) : Stmt → List Event → Prop
  /-- The row stays, or stays absent. -/
  | keep {s} (hkeep : db'.requests.get? k = db.requests.get? k) : RowEffect db db' k s []
  /-- The row is marked as cancelled. -/
  | cancel {ids r} (hr : db.requests.get? k = some r)
      (hr' : db'.requests.get? k = some { r with cancelled := true }) :
      RowEffect db db' k (.cancel ids) []
  /-- A fresh row appears. -/
  | enqueue {createdAt reqs r} (hr : db.requests.get? k = none)
      (hr' : db'.requests.get? k = some r) (hfresh : r.IsFresh) :
      RowEffect db db' k (.enqueue createdAt reqs) [.enqueued k]
  /-- A pending row of an active partition is stamped. -/
  | dispatch {queue owner now limit r p a} (hr : db.requests.get? k = some r)
      (hr' : db'.requests.get? k = some { r with
        dispatchEpoch := p.epoch, dispatchAttempt := a })
      (hqueue : r.queue = queue) (hpending : r.dispatchEpoch = 0)
      (hp : db.partitionOfRow r = some p) (howner : p.owner = owner.name)
      (hactive : p.draining = false) (hlo : db.nextAttempt ≤ a) (hhi : a < db'.nextAttempt) :
      RowEffect db db' k (.dispatch queue owner now limit)
        [.dispatched owner.name
          { r with dispatchEpoch := p.epoch, dispatchAttempt := a }.toRequest]
  /-- `Undispatch` or `Defer` returns the row to pending. -/
  | undispatch {owner stamps notBefore r p} (hr : db.requests.get? k = some r)
      (hr' : db'.requests.get? k = some { r with
        dispatchEpoch := 0, notBefore := max r.notBefore notBefore })
      (hnamed : ⟨k, r.dispatchAttempt⟩ ∈ stamps) (hstamped : 0 < r.dispatchEpoch)
      (hp : db.partitionOfRow r = some p) (howner : p.owner = owner.name) :
      RowEffect db db' k (.undispatch owner stamps notBefore) [.requeued ⟨k, r.dispatchAttempt⟩]
  /-- `Retry` returns the row to pending with a new envelope. -/
  | retry {owner notBefore envelope r p} (hr : db.requests.get? k = some r)
      (hr' : db'.requests.get? k = some { r with
        dispatchEpoch := 0, notBefore := notBefore, envelope := envelope })
      (hstamped : 0 < r.dispatchEpoch) (hp : db.partitionOfRow r = some p)
      (howner : p.owner = owner.name) :
      RowEffect db db' k (.retry owner ⟨k, r.dispatchAttempt⟩ notBefore envelope)
        [.requeued ⟨k, r.dispatchAttempt⟩]
  /-- `ResetStale` returns a row of an older epoch to pending. -/
  | reset {queue owner only r p} (hr : db.requests.get? k = some r)
      (hr' : db'.requests.get? k = some { r with dispatchEpoch := 0 })
      (hstamped : 0 < r.dispatchEpoch) (hp : db.partitionOfRow r = some p)
      (howner : p.owner = owner.name) (hold : r.dispatchEpoch < p.epoch) :
      RowEffect db db' k (.resetStale queue owner only) [.reset ⟨k, r.dispatchAttempt⟩]
  /-- `Ack` replaces the row by a result. -/
  | ack {owner cs createdAt r p c res} (hr : db.requests.get? k = some r)
      (hr' : db'.requests.get? k = none) (hnamed : c ∈ cs) (hkey : c.key = k)
      (hattempt : c.attempt = r.dispatchAttempt) (hstamped : 0 < r.dispatchEpoch)
      (hp : db.partitionOfRow r = some p) (howner : p.owner = owner.name)
      (hepoch : p.epoch = r.dispatchEpoch) (hres : res.key = k) :
      RowEffect db db' k (.ack owner cs createdAt) [.acked r.dispatchAttempt res]

namespace Database

variable {db : Database} {sched : Sched}

lemma enqueue_rowEffect {db' : Database} {createdAt : ℤ} {reqs : List Request}
    (h : db.enqueue createdAt reqs = some db') (k : Key) :
    ∃ evs, aboutKey k (db.events sched (.enqueue createdAt reqs)) = evs ∧
      RowEffect db db' k (.enqueue createdAt reqs) evs := by
  have hevs : aboutKey k (db.events sched (.enqueue createdAt reqs)) =
      replicate ((reqs.map key).count k) (.enqueued k) := by
    have hcomp : (fun e : Event => decide (e.key? = some k)) ∘ enqueued =
        fun k' => decide (k' = k) := by
      funext k'
      simp [key?]
    have hmap : (db.events sched (.enqueue createdAt reqs)) =
        (reqs.map key).map enqueued := by
      rw [List.map_map]
      rfl
    rw [aboutKey, hmap, List.filter_map, hcomp, List.filter_eq, List.map_replicate]
  refine ⟨_, hevs, ?_⟩
  rcases get?_enqueue h k with ⟨hsame, hnot⟩ | ⟨hnone, hcount, r, hr, hfresh⟩
  · rw [count_eq_zero_of_not_mem hnot]
    exact .keep hsame
  · rw [hcount]
    exact .enqueue hnone hr hfresh

lemma dispatch_rowEffect (db : Database) (sched : Sched) (queue : String) (owner : Owner)
    (now : Time) (limit : ℕ) (k : Key) :
    ∃ evs, aboutKey k (db.events sched (.dispatch queue owner now limit)) = evs ∧
      RowEffect db (db.dispatch sched queue owner.name now limit).2 k
        (.dispatch queue owner now limit) evs := by
  set draws := db.draws sched owner.name queue now.unix limit with hdraws
  have hevs : aboutKey k (db.events sched (.dispatch queue owner now limit)) =
      ((db.dispatch sched queue owner.name now limit).1.filter fun q => q.key = k).map
        (.dispatched owner.name) := by
    rw [aboutKey]
    simp only [events, List.filter_map]
    congr 2
    funext q
    simp [key?]
  by_cases hk : k ∈ draws
  · obtain ⟨r, p, hr, hq, he, hp, ho, hd⟩ := mem_draws (hdraws ▸ hk)
    obtain ⟨-, rfl⟩ := get?_eq_some.mp hr
    have hidx : draws.idxOf r.key < draws.length := List.idxOf_lt_length_iff.mpr hk
    have hr' : (db.dispatch sched queue owner.name now limit).2.requests.get? r.key =
        some { r with
          dispatchEpoch := p.epoch
          dispatchAttempt := db.nextAttempt + draws.idxOf r.key } := by
      rw [get?_dispatch, hr, Option.map_some, stampRow_of_mem hp hk]
    have hmem : { r with
        dispatchEpoch := p.epoch
        dispatchAttempt := db.nextAttempt + draws.idxOf r.key }.toRequest ∈
          (db.dispatch sched queue owner.name now limit).1 :=
      mem_dispatch.mpr ⟨hdraws ▸ hk, congrArg (Option.map RequestRow.toRequest) hr'⟩
    have hfilter := filter_key_eq_singleton
      (nodup_map_key_dispatch db sched queue owner.name now limit) hmem
    refine ⟨_, ?_, .dispatch hr hr' hq he hp ho hd (by omega) ?_⟩
    · rw [hevs]
      exact congrArg (map (dispatched owner.name)) hfilter
    · simp only [dispatch, ← hdraws]
      omega
  · refine ⟨[], ?_, .keep ?_⟩
    · rw [hevs, filter_eq_nil_iff.mpr, map_nil]
      intro q hq hqk
      exact hk ((of_decide_eq_true hqk) ▸ (mem_dispatch.mp hq).1)
    · rw [get?_dispatch]
      cases hr : db.requests.get? k with
      | none => rfl
      | some r => rw [map_some, stampRow_of_not_mem (key_of_get? hr ▸ hk)]

lemma carries_iff {owner : String} {stamp : Stamp} {r : RequestRow} :
    db.carries owner stamp r = true ↔ stamp = ⟨r.key, r.dispatchAttempt⟩ ∧ 0 < r.dispatchEpoch ∧
        ∃ p, db.partitionOfRow r = some p ∧ p.owner = owner := by
  obtain ⟨key, attempt⟩ := stamp
  simp only [carries, Bool.and_eq_true, decide_eq_true_eq, heldBy_iff, Stamp.mk.injEq]
  constructor
  · rintro ⟨⟨⟨h₁, h₂⟩, h₃⟩, h₄⟩
    exact ⟨⟨h₁.symm, h₃.symm⟩, h₂, h₄⟩
  · rintro ⟨⟨h₁, h₃⟩, h₂, h₄⟩
    exact ⟨⟨⟨h₁.symm, h₂⟩, h₃.symm⟩, h₄⟩

lemma update_cases (t : Table RequestRow.key) (p : RequestRow → Bool) (f : RequestRow → RequestRow)
    (hf : ∀ r, (if p r then f r else r).key = r.key) (g : RequestRow → Event)
    (hg : ∀ r, (g r).key? = some r.key) (k : Key) :
    (aboutKey k ((t.rows.filter p).map g) = [] ∧
      (t.map (fun r => if p r then f r else r) hf).get? k = t.get? k) ∨
    ∃ r, t.get? k = some r ∧ p r = true ∧ aboutKey k ((t.rows.filter p).map g) = [g r] ∧
      (t.map (fun r => if p r then f r else r) hf).get? k = some (f r) := by
  rw [aboutKey, filter_map_filter_rows t p g hg, get?_map]
  cases hr : t.get? k with
  | none => exact .inl ⟨rfl, rfl⟩
  | some r =>
    by_cases hp : p r = true
    · refine .inr ⟨r, rfl, hp, ?_, ?_⟩
      · rw [filter_some_pos hp]
        rfl
      · rw [map_some, if_pos hp]
    · refine .inl ⟨?_, ?_⟩
      · rw [filter_some_neg (Bool.eq_false_iff.mpr hp)]
        rfl
      · rw [map_some, if_neg hp]

lemma undispatch_rowEffect (db : Database) (sched : Sched) (owner : Owner) (stamps : List Stamp)
    (notBefore : ℤ) (k : Key) :
    ∃ evs, aboutKey k (db.events sched (.undispatch owner stamps notBefore)) = evs ∧
      RowEffect db (db.undispatch owner.name stamps notBefore) k
        (.undispatch owner stamps notBefore) evs := by
  rcases update_cases db.requests (fun r => (uniqueStamps stamps).any (db.carries owner.name · r))
    (fun r => { r with dispatchEpoch := 0, notBefore := max r.notBefore notBefore })
    (fun r => by split <;> rfl) (fun r => .requeued ⟨r.key, r.dispatchAttempt⟩)
    (fun _ => rfl) k with ⟨hevs, hkeep⟩ | ⟨r, hr, hp, hevs, hr'⟩
  · exact ⟨[], hevs, .keep hkeep⟩
  · obtain ⟨stamp, hstamp, hc⟩ := any_eq_true.mp hp
    obtain ⟨rfl, hpos, p, hpart, howner⟩ := carries_iff.mp hc
    obtain ⟨-, rfl⟩ := get?_eq_some.mp hr
    exact ⟨_, hevs, .undispatch hr hr' (mem_eraseDups.mp hstamp) hpos hpart howner⟩

lemma retry_rowEffect (db : Database) (sched : Sched) (owner : Owner) (stamp : Stamp)
    (notBefore : ℤ) (envelope : String) (k : Key) :
    ∃ evs, aboutKey k (db.events sched (.retry owner stamp notBefore envelope)) = evs ∧
      RowEffect db (db.retry owner.name stamp notBefore envelope).2 k
        (.retry owner stamp notBefore envelope) evs := by
  rcases update_cases db.requests (db.carries owner.name stamp)
    (fun r => { r with dispatchEpoch := 0, notBefore := notBefore, envelope := envelope })
    (fun r => by split <;> rfl) (fun r => .requeued ⟨r.key, r.dispatchAttempt⟩)
    (fun _ => rfl) k with ⟨hevs, hkeep⟩ | ⟨r, hr, hc, hevs, hr'⟩
  · exact ⟨[], hevs, .keep hkeep⟩
  · obtain ⟨rfl, hpos, p, hpart, howner⟩ := carries_iff.mp hc
    obtain ⟨-, rfl⟩ := get?_eq_some.mp hr
    exact ⟨_, hevs, .retry hr hr' hpos hpart howner⟩

lemma stale_iff {queue owner : String} {only : Option (List ℤ)} {r : RequestRow}
    (h : db.stale sched queue owner only r = true) :
    r.queue = queue ∧ 0 < r.dispatchEpoch ∧
      (∃ p, db.partitionOfRow r = some p ∧ p.owner = owner ∧ r.dispatchEpoch < p.epoch) := by
  simp only [stale, Bool.and_eq_true, decide_eq_true_eq, Option.any_eq_true] at h
  exact ⟨h.1.1.1.1, h.1.1.1.2, h.1.1.2⟩

lemma resetStale_rowEffect (db : Database) (sched : Sched) (queue : String) (owner : Owner)
    (only : Option (List ℤ)) (k : Key) :
    ∃ evs, aboutKey k (db.events sched (.resetStale queue owner only)) = evs ∧
      RowEffect db (db.resetStale sched queue owner.name only) k
        (.resetStale queue owner only) evs := by
  rcases update_cases db.requests (db.stale sched queue owner.name only) unstampRow
    (fun r => by split <;> rfl) (fun r => .reset ⟨r.key, r.dispatchAttempt⟩)
    (fun _ => rfl) k with ⟨hevs, hkeep⟩ | ⟨r, hr, hc, hevs, hr'⟩
  · exact ⟨[], hevs, .keep hkeep⟩
  · obtain ⟨-, hpos, p, hpart, howner, hlt⟩ := stale_iff hc
    obtain ⟨-, rfl⟩ := get?_eq_some.mp hr
    exact ⟨_, hevs, .reset hr hr' hpos hpart howner hlt⟩

lemma cancel_rowEffect (db : Database) (ids : List String) (k : Key) :
    RowEffect db (db.cancel ids) k (.cancel ids) [] := by
  have hget : (db.cancel ids).requests.get? k = (db.requests.get? k).map fun r =>
      if r.key.id ∈ ids.filter (· ≠ "") then { r with cancelled := true } else r := by
    simp [cancel]
  cases hr : db.requests.get? k with
  | none =>
    refine .keep ?_
    rw [hget, hr]
    rfl
  | some r =>
    rw [hr, map_some] at hget
    split at hget
    · exact .cancel hr hget
    · exact .keep (hget.trans hr.symm)

lemma ack_rowEffect (db : Database) (sched : Sched) (owner : Owner) (cs : List Completion)
    (createdAt : ℤ) (k : Key) :
    ∃ evs, aboutKey k (db.events sched (.ack owner cs createdAt)) = evs ∧
      RowEffect db (db.ack owner.name cs createdAt).2 k (.ack owner cs createdAt) evs := by
  have hevs : aboutKey k (db.events sched (.ack owner cs createdAt)) =
      ((db.ackResults owner.name cs createdAt).filter fun ar => ar.2.key = k).map
        fun ar => .acked ar.1 ar.2 := by
    rw [aboutKey]
    simp only [events, List.filter_map]
    congr 2
    funext ar
    simp [key?]
  have hget : (db.ack owner.name cs createdAt).2.requests.get? k = (db.requests.get? k).filter
      fun r => !((uniqueCompletions cs).map Prod.fst).any (db.completes owner.name · r) := by
    simp only [ack, get?_filter]
  by_cases hdone : ∃ r, db.requests.get? k = some r ∧
      ((uniqueCompletions cs).map Prod.fst).any (db.completes owner.name · r) = true
  · obtain ⟨r, hr, hany⟩ := hdone
    obtain ⟨hmem, rfl⟩ := get?_eq_some.mp hr
    obtain ⟨res, hres, har⟩ := exists_ackResults_of_completes createdAt hmem hany
    obtain ⟨c, hc, hcr⟩ := any_eq_true.mp hany
    obtain ⟨hkey, hpos, hatt, p, hp, howner, hepoch⟩ := completes_iff.mp hcr
    have hfilter := filter_key_eq_singleton
      (nodup_map_key_ackResults db owner.name cs createdAt) har
    rw [hres] at hfilter
    refine ⟨[.acked r.dispatchAttempt res], ?_, .ack hr ?_ (mem_of_mem_uniqueCompletions hc)
      hkey.symm hatt.symm hpos hp howner hepoch hres⟩
    · rw [hevs, hfilter]
      rfl
    · rw [hget, hr, filter_some_neg (by rw [hany]; rfl)]
  · refine ⟨[], ?_, .keep ?_⟩
    · rw [hevs, filter_eq_nil_iff.mpr, map_nil]
      intro ar har hk
      obtain ⟨r, hr, hany⟩ := mem_ackResults har
      exact hdone ⟨r, (of_decide_eq_true hk) ▸ hr, hany⟩
    · rw [hget]
      cases hr : db.requests.get? k with
      | none => rfl
      | some r =>
        rw [filter_some_pos]
        have := Bool.eq_false_iff.mpr fun h => hdone ⟨r, hr, h⟩
        rw [this]
        rfl

/-- What one statement does to the row of a key. -/
theorem exec_rowEffect {db' : Database} {s : Stmt} {rep : Reply s}
    (h : db.exec sched s = some (rep, db')) (k : Key) :
    ∃ evs, aboutKey k (db.events sched s) = evs ∧ RowEffect db db' k s evs := by
  cases s with
  | enqueue createdAt reqs =>
    obtain ⟨db₁, h₁, heq⟩ := map_eq_some_iff.mp h
    cases heq
    exact enqueue_rowEffect h₁ k
  | dispatch queue owner now limit =>
    cases h
    exact dispatch_rowEffect db sched queue owner now limit k
  | undispatch owner stamps notBefore =>
    cases h
    exact undispatch_rowEffect db sched owner stamps notBefore k
  | retry owner stamp notBefore envelope =>
    cases h
    exact retry_rowEffect db sched owner stamp notBefore envelope k
  | resetStale queue owner only =>
    cases h
    exact resetStale_rowEffect db sched queue owner only k
  | cancel ids =>
    cases h
    exact ⟨[], rfl, cancel_rowEffect db ids k⟩
  | ack owner cs createdAt =>
    cases h
    exact ack_rowEffect db sched owner cs createdAt k
  | acquirePartitions queue owner now ttl limit =>
    cases h
    refine ⟨[], ?_, .keep rfl⟩
    rw [aboutKey, filter_eq_nil_iff]
    intro e he
    obtain ⟨l, -, rfl⟩ := mem_map.mp he
    simp [key?]
  | ensurePartitions queue =>
    have hdb : db.ensurePartitions queue = db' := congrArg Prod.snd (some.inj h)
    refine ⟨[], rfl, .keep ?_⟩
    rw [← hdb, ensurePartitions]
  | _ =>
    cases h
    exact ⟨[], rfl, .keep rfl⟩

end Database

end LlmdAsync.SqlQueue
