import LlmdAsync.SqlQueue.Ownership

/-!
# Counting partitions

How many partitions of a queue have rows of some kind.  The rows of a queue are its partitions, so a
list of them without repetition is as long as the set of their numbers.  In particular
`AcquirePartitions` takes as many partitions as it may, or all that are unowned or lapsed, unless
somebody else holds one of them locked.
-/

namespace LlmdAsync.SqlQueue

open List Table Finset

def partitionIds : Finset ℤ := (Finset.range partitionCount).image Int.ofNat

lemma mem_partitionIds {p : ℤ} : p ∈ partitionIds ↔ 0 ≤ p ∧ p < partitionCount := by
  rw [partitionIds, mem_image]
  constructor
  · rintro ⟨i, hi, rfl⟩
    exact ⟨Int.natCast_nonneg i, Int.ofNat_lt.mpr (Finset.mem_range.mp hi)⟩
  · rintro ⟨h₀, h₁⟩
    exact ⟨p.toNat, Finset.mem_range.mpr (by omega), Int.toNat_of_nonneg h₀⟩

lemma card_partitionIds : partitionIds.card = partitionCount := by
  rw [partitionIds, card_image_of_injective _ fun _ _ => Int.ofNat.inj, card_range]

namespace Database

variable {db : Database} {queue : String} {sel : PartitionRow → Bool}

/-- Every row of the queue is one of its partitions. -/
def Inside (db : Database) (queue : String) : Prop :=
  ∀ row ∈ db.partitions, row.key.queue = queue → row.key.partition ∈ partitionIds

/-- The partitions of a queue whose rows are selected. -/
def selection (db : Database) (queue : String) (sel : PartitionRow → Bool) : Finset ℤ :=
  partitionIds.filter fun p => (db.partitions.get? ⟨queue, p⟩).any sel

/-- The partitions of a queue that are owned under a name. -/
def ownedBy (db : Database) (queue name : String) : Finset ℤ :=
  db.selection queue fun row => row.owner = name

lemma Inside.congr {db' : Database} (hin : db.Inside queue)
    (h : db'.partitions = db.partitions) : db'.Inside queue := by
  unfold Inside
  rw [h]
  exact hin

lemma Inside.of_get? {db' : Database} {f : PartitionRow → PartitionRow} (hin : db.Inside queue)
    (h : ∀ pk, db'.partitions.get? pk = (db.partitions.get? pk).map f) : db'.Inside queue := by
  intro row hrow hq
  have hget := mem_iff_get?.mp hrow
  rw [h] at hget
  obtain ⟨row₀, hrow₀, -⟩ := Option.map_eq_some_iff.mp hget
  have hkey := key_of_get? hrow₀
  have hpart := hin row₀ (mem_of_get? hrow₀) (by rw [hkey]; exact hq)
  rwa [hkey] at hpart

lemma mem_selection (hin : db.Inside queue) {p : ℤ} :
    p ∈ db.selection queue sel ↔
      ∃ row, db.partitions.get? ⟨queue, p⟩ = some row ∧ sel row = true := by
  rw [selection, Finset.mem_filter, Option.any_eq_true]
  refine ⟨fun h => h.2, fun ⟨row, hrow, hs⟩ => ⟨?_, row, hrow, hs⟩⟩
  have hkey := Table.key_of_get? hrow
  have hpart := hin row (Table.mem_of_get? hrow) (by rw [hkey])
  rwa [hkey] at hpart

lemma mem_ownedBy (hin : db.Inside queue) {name : String} {p : ℤ} :
    p ∈ db.ownedBy queue name ↔
      ∃ row, db.partitions.get? ⟨queue, p⟩ = some row ∧ row.owner = name := by
  rw [ownedBy, mem_selection hin]
  simp only [decide_eq_true_eq]

lemma card_toFinset_partition {l : List PartitionRow} (hnd : (l.map PartitionRow.key).Nodup)
    (hq : ∀ row ∈ l, row.key.queue = queue) :
    ((l.map fun row => row.key.partition).toFinset).card = l.length := by
  have hnd' : (l.map fun row => row.key.partition).Nodup := by
    refine List.Nodup.of_map (fun p : ℤ => (⟨queue, p⟩ : PartitionKey)) ?_
    rw [List.map_map]
    convert hnd using 1
    refine map_congr_left fun row hrow => ?_
    show (⟨queue, row.key.partition⟩ : PartitionKey) = row.key
    rw [← hq row hrow]
  rw [toFinset_card_of_nodup hnd', length_map]

lemma card_selection (hin : db.Inside queue) (l : List PartitionRow)
    (hnd : (l.map PartitionRow.key).Nodup)
    (hl : ∀ row, row ∈ l ↔ row ∈ db.partitions ∧ row.key.queue = queue ∧ sel row = true) :
    (db.selection queue sel).card = l.length := by
  rw [← card_toFinset_partition hnd fun row hrow => ((hl row).mp hrow).2.1]
  congr 1
  ext p
  rw [mem_selection hin, List.mem_toFinset, List.mem_map]
  constructor
  · rintro ⟨row, hrow, hs⟩
    have hkey := key_of_get? hrow
    refine ⟨row, (hl row).mpr ⟨mem_of_get? hrow, by rw [hkey], hs⟩, ?_⟩
    rw [hkey]
  · rintro ⟨row, hrow, rfl⟩
    obtain ⟨hmem, hq, hs⟩ := (hl row).mp hrow
    refine ⟨row, ?_, hs⟩
    rw [← hq]
    exact mem_iff_get?.mp hmem

/-- The rows `AcquirePartitions` picks. -/
def pickedRows (db : Database) (sched : Sched) (queue : String) (nowMs : ℤ) (limit : ℕ) :
    List PartitionRow :=
  ((db.partitions.rows.filter fun p =>
    acquirable queue nowMs p && !sched.lockedPartition p.key).insertionSort acquireBefore).take
      limit

section Acquire

variable {sched : Sched} {nowMs : ℤ} {limit : ℕ}

lemma nodup_pickedRows :
    ((db.pickedRows sched queue nowMs limit).map PartitionRow.key).Nodup := by
  have hsort : (((db.partitions.rows.filter fun p => acquirable queue nowMs p &&
      !sched.lockedPartition p.key).insertionSort acquireBefore).map PartitionRow.key).Nodup := by
    rw [((perm_insertionSort _ _).map _).nodup_iff]
    exact db.partitions.nodup.sublist (filter_sublist.map _)
  exact hsort.sublist ((take_sublist _ _).map _)

lemma mem_pickedRows {row : PartitionRow} (h : row ∈ db.pickedRows sched queue nowMs limit) :
    row ∈ db.partitions ∧ acquirable queue nowMs row = true := by
  have hmem := List.mem_of_mem_take h
  rw [List.mem_insertionSort, List.mem_filter, Bool.and_eq_true] at hmem
  exact ⟨hmem.1, hmem.2.1⟩

lemma mem_pickedRows_iff {row : PartitionRow} (hrow : row ∈ db.partitions) :
    row ∈ db.pickedRows sched queue nowMs limit ↔ db.taken sched queue nowMs limit row = true:= by
  rw [taken, Bool.and_eq_true, decide_eq_true_eq]
  constructor
  · exact fun h => ⟨(mem_pickedRows h).2, mem_map_of_mem h⟩
  · rintro ⟨-, hkey⟩
    obtain ⟨row', hrow', heq⟩ := mem_map.mp hkey
    rw [← eq_of_key_eq (mem_pickedRows hrow').1 hrow heq]
    exact hrow'

lemma length_fst_acquirePartitions (hin : db.Inside queue) (owner : String) (now ttl : Time) :
    (db.acquirePartitions sched queue owner now ttl limit).1.length =
      (db.selection queue (db.taken sched queue now.unixMilli limit)).card := by
  rw [acquirePartitions_fst, leasesOf, List.length_insertionSort, List.length_map, List.length_map]
  refine (card_selection hin _ (db.partitions.nodup.sublist (List.filter_sublist.map _))
    fun row => ?_).symm
  rw [List.mem_filter]
  exact ⟨fun h => ⟨h.1, queue_of_taken h.2, h.2⟩, fun h => ⟨h.1, h.2.2⟩⟩

lemma card_taken (hin : db.Inside queue) (hlock : ∀ pk, sched.lockedPartition pk = false) :
    (db.selection queue (db.taken sched queue nowMs limit)).card =
      min limit (db.selection queue (acquirable queue nowMs)).card := by
  have htaken : (db.selection queue (db.taken sched queue nowMs limit)).card =
      (db.pickedRows sched queue nowMs limit).length := by
    refine card_selection hin _ nodup_pickedRows fun row => ⟨fun h => ?_, fun h => ?_⟩
    · have hmem := (mem_pickedRows h).1
      have hs := (mem_pickedRows_iff hmem).mp h
      exact ⟨hmem, queue_of_taken hs, hs⟩
    · exact (mem_pickedRows_iff h.1).mpr h.2.2
  have hfree : (db.selection queue (acquirable queue nowMs)).card =
      (db.partitions.rows.filter (acquirable queue nowMs)).length := by
    refine card_selection hin _ (db.partitions.nodup.sublist (filter_sublist.map _))
      fun row => ?_
    rw [List.mem_filter]
    exact ⟨fun h => ⟨h.1, (acquirable_iff.mp h.2).1, h.2⟩, fun h => ⟨h.1, h.2.2⟩⟩
  have hunlocked : (fun p : PartitionRow => acquirable queue nowMs p &&
      !sched.lockedPartition p.key) = acquirable queue nowMs := by
    funext p
    rw [hlock, Bool.not_false, Bool.and_true]
  rw [htaken, hfree, pickedRows, hunlocked, length_take, length_insertionSort]

lemma length_acquirePartitions {now : Time} (hin : db.Inside queue)
    (hlock : ∀ pk, sched.lockedPartition pk = false) (owner : String) (ttl : Time) :
    (db.acquirePartitions sched queue owner now ttl limit).1.length =
      min limit (db.selection queue (acquirable queue now.unixMilli)).card := by
  rw [length_fst_acquirePartitions hin, card_taken hin hlock]

lemma taken_of_acquirable (hin : db.Inside queue) (hlock : ∀ pk, sched.lockedPartition pk = false)
    (hfew : (db.selection queue (acquirable queue nowMs)).card ≤ limit) {row : PartitionRow}
    (hrow : row ∈ db.partitions) (hfree : acquirable queue nowMs row = true) :
    db.taken sched queue nowMs limit row = true := by
  have hget : db.partitions.get? ⟨queue, row.key.partition⟩ = some row := by
    rw [← (acquirable_iff.mp hfree).1]
    exact mem_iff_get?.mp hrow
  have hsub : db.selection queue (db.taken sched queue nowMs limit) ⊆
      db.selection queue (acquirable queue nowMs) := by
    intro p hp
    obtain ⟨row', hrow', ht⟩ := (mem_selection hin).mp hp
    exact (mem_selection hin).mpr ⟨row', hrow', (Bool.and_eq_true _ _ ▸ ht).1⟩
  have heq := eq_of_subset_of_card_le hsub
    (by rw [card_taken hin hlock, Nat.min_eq_right hfew])
  have hmem : row.key.partition ∈ db.selection queue (db.taken sched queue nowMs limit) := by
    rw [heq]
    exact (mem_selection hin).mpr ⟨row, hget, hfree⟩
  obtain ⟨row', hrow', ht⟩ := (mem_selection hin).mp hmem
  rw [Option.some.inj (hget.symm.trans hrow')]
  exact ht

end Acquire

lemma acquirable_takeOver {c : Owner} {now ttl : Time} (httl : 0 ≤ ttl) (row : PartitionRow) :
    acquirable queue now.unixMilli (takeOver c.name (Time.unixMilli (now + ttl)) row) = false:= by
  rw [Bool.eq_false_iff]
  intro h
  have hms : now.unixMilli ≤ Time.unixMilli (now + ttl) :=
    Time.unixMilli_mono (Int.le_add_of_nonneg_right httl)
  rcases (acquirable_iff.mp h).2 with hnone | hlapsed
  · exact c.name_ne hnone
  · exact absurd hlapsed (not_lt_of_ge hms)

end Database

end LlmdAsync.SqlQueue
