import LlmdAsync.SqlQueue.Effects

/-!
# One result per enqueue

Every enqueue of a key is balanced by exactly one thing: the row of the key while it waits or runs,
or one inserted result after that.  The balance is kept by every single statement, so it survives
any interleaving of owners, lost replies and crashes.
-/

namespace LlmdAsync.SqlQueue

/-- The result an event inserted, if any. -/
def Event.result? : Event → Option ResultRow
  | .acked _ result => some result
  | _ => none

/-- The results that statements have logged, oldest first.  These are the rows ever inserted into
`async_results` (`Database.exec_results`). -/
def insertedResults (log : List Event) : List ResultRow := log.filterMap Event.result?

/-- How many results were ever inserted for a key. -/
def resultCount (log : List Event) (k : Key) : ℕ :=
  (insertedResults log).countP fun r => r.key = k

/-- How many enqueues of a key took effect. -/
def enqueueCount (log : List Event) (k : Key) : ℕ := log.count (.enqueued k)

/-- One if the key has a row in `async_requests`, else zero. -/
def Database.rowCount (db : Database) (k : Key) : ℕ := if (db.requests.get? k).isSome then 1 else 0

lemma resultCount_eq_aboutKey (log : List Event) (k : Key) :
    resultCount log k = (aboutKey k log).countP fun e => e.result?.isSome := by
  unfold resultCount insertedResults aboutKey
  rw [List.countP_filterMap, List.countP_filter]
  refine List.countP_congr fun e _ => ?_
  cases e <;> simp [Event.result?, Event.key?]

lemma enqueueCount_eq_aboutKey (log : List Event) (k : Key) :
    enqueueCount log k = (aboutKey k log).count (.enqueued k) := by
  unfold enqueueCount aboutKey
  rw [List.count_filter]
  simp [Event.key?]

lemma resultCount_append (l l' : List Event) (k : Key) :
    resultCount (l ++ l') k = resultCount l k + resultCount l' k := by
  simp [resultCount, insertedResults]

lemma enqueueCount_append (l l' : List Event) (k : Key) :
    enqueueCount (l ++ l') k = enqueueCount l k + enqueueCount l' k := by
  simp [enqueueCount]

lemma Database.rowCount_of_some {db : Database} {k : Key} {r : RequestRow}
    (h : db.requests.get? k = some r) : db.rowCount k = 1 := by
  simp [rowCount, h]

lemma Database.rowCount_of_none {db : Database} {k : Key} (h : db.requests.get? k = none) :
    db.rowCount k = 0 := by
  simp [rowCount, h]

lemma Database.exec_rowCount {db db' : Database} {sched : Sched} {s : Stmt} {rep : Reply s}
    (h : db.exec sched s = some (rep, db')) (k : Key) :
    resultCount (db.events sched s) k + db'.rowCount k =
      enqueueCount (db.events sched s) k + db.rowCount k := by
  obtain ⟨evs, hevs, heff⟩ := db.exec_rowEffect h k
  rw [resultCount_eq_aboutKey, enqueueCount_eq_aboutKey, hevs]
  cases heff with
  | keep hkeep => simp [rowCount, hkeep]
  | enqueue hr hr' hfresh =>
    rw [rowCount_of_none hr, rowCount_of_some hr']
    simp [Event.result?]
  | ack hr hr' =>
    rw [rowCount_of_some hr, rowCount_of_none hr']
    simp [Event.result?]
  | cancel hr hr' | dispatch hr hr' | undispatch hr hr' | retry hr hr' | reset hr hr' =>
    rw [rowCount_of_some hr, rowCount_of_some hr']
    simp [Event.result?]

/-! ### The log and the table of results -/

/-- What a statement adds to `async_results` is what it logs; a statement that logs no result may
only remove rows. -/
lemma Database.exec_results {db db' : Database} {sched : Sched} {s : Stmt} {rep : Reply s}
    (h : db.exec sched s = some (rep, db')) :
    db'.results = db.results ++ insertedResults (db.events sched s) ∨
      insertedResults (db.events sched s) = [] ∧ db'.results.Sublist db.results := by
  cases s with
  | ack owner completions createdAt =>
    cases h
    left
    simp [Database.events, insertedResults, List.filterMap_map, Event.result?,
      Function.comp_def]
  | enqueue createdAt reqs =>
    obtain ⟨db₁, henqueue, heq⟩ := Option.map_eq_some_iff.mp h
    cases heq
    obtain ⟨t, -, rfl⟩ := Option.map_eq_some_iff.mp henqueue
    refine .inr ⟨?_, List.Sublist.refl _⟩
    simp [Database.events, insertedResults, List.filterMap_map, Event.result?, Function.comp_def]
  | expireRoute | popResults | expireResults =>
    cases h
    exact .inr ⟨rfl, List.filter_sublist⟩
  | dispatch | resetStale | undispatch | retry | acquirePartitions =>
    cases h
    refine .inr ⟨?_, List.Sublist.refl _⟩
    simp [Database.events, insertedResults, List.filterMap_map, Event.result?, Function.comp_def]
  | ensurePartitions =>
    cases h
    refine .inr ⟨rfl, ?_⟩
    simp only [Database.ensurePartitions]
    exact List.Sublist.refl _
  | _ =>
    cases h
    exact .inr ⟨rfl, List.Sublist.refl _⟩

/-- In every reachable world and for every key, the results ever inserted and the row that is still
there account for every enqueue: none is lost and none is answered twice.  The results counted are
the rows that statements have put into `async_results`. -/
theorem resultCount_add_rowCount_eq_enqueueCount {w : World} (h : w.Reachable) (k : Key) :
    resultCount w.log k + w.db.rowCount k = enqueueCount w.log k ∧
      ∀ w', w.Step w' → ∃ inserted, insertedResults w'.log = insertedResults w.log ++ inserted ∧
        (w'.db.results = w.db.results ++ inserted ∨
          inserted = [] ∧ w'.db.results.Sublist w.db.results) := by
  constructor
  · refine World.Reachable.invariant
      (P := fun w => resultCount w.log k + w.db.rowCount k = enqueueCount w.log k) rfl ?_ h
    intro w w' sched s r hw hexec hlog
    have hstep := w.db.exec_rowCount hexec k
    rw [hlog, resultCount_append, enqueueCount_append]
    omega
  · rintro w' ⟨sched, s, rep, hstep⟩
    obtain ⟨hexec, hlog⟩ := World.exec_eq_some.mp hstep
    refine ⟨insertedResults (w.db.events sched s), ?_, Database.exec_results hexec⟩
    rw [hlog, insertedResults, List.filterMap_append]
    rfl

/-- A request that is dispatched, retried, dispatched again and acknowledged twice. -/
def retriedRun : List Stmt :=
  let owner : Owner := ⟨"dispatcher-0", first_ne⟩
  let key : Key := ⟨"r1", "t1"⟩
  [.ensurePartitions "q",
    .enqueue 0 [⟨key, "q", 0, 0, 0, 60, "", [], false, 0⟩],
    .acquirePartitions "q" owner 0 30000000000 64,
    .dispatch "q" owner 0 10,
    .retry owner ⟨key, 1⟩ 0 "",
    .dispatch "q" owner 0 10,
    .ack owner [⟨key, 2, "results", "ok", 0⟩] 1,
    .ack owner [⟨key, 2, "results", "ok", 0⟩] 2]

/-- The run records its one result, although `Ack` ran twice. -/
theorem retriedRun_resultCount :
    let w := World.initial.run retriedRun
    resultCount w.log ⟨"r1", "t1"⟩ + w.db.rowCount ⟨"r1", "t1"⟩ =
        enqueueCount w.log ⟨"r1", "t1"⟩ ∧
      resultCount w.log ⟨"r1", "t1"⟩ = 1 ∧ w.db.results.length = 1 :=
  ⟨(resultCount_add_rowCount_eq_enqueueCount (World.reachable_run retriedRun) ⟨"r1", "t1"⟩).1,
    by decide +kernel⟩

end LlmdAsync.SqlQueue
