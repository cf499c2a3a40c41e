import LlmdAsync.SqlQueue.Accounting

/-!
# The order of dispatch

`Dispatch` returns the eligible requests with the earliest deadlines, and equal deadlines in the
order of submission.  The query of `async_dispatch` picks the first rows by `(deadline,
created_at)`, the update stamps them in an order of its own, and the caller sorts what comes back by
the same pair.  `Enqueue` gives every request of a call its own `created_at`, counted through all
chunks, and no statement changes the deadline or `created_at` of a row.
-/

namespace LlmdAsync.SqlQueue

open List Option Table Database Request

instance (sched : Sched) : Std.Total (Database.dispatchBefore sched) := ⟨fun a b => by
  unfold Database.dispatchBefore
  omega⟩

instance (sched : Sched) : IsTrans RequestRow (Database.dispatchBefore sched) := ⟨fun a b c => by
  unfold Database.dispatchBefore
  omega⟩

instance : Std.Total Database.requestBefore := ⟨fun a b => by
  unfold Database.requestBefore
  omega⟩

instance : IsTrans Request Database.requestBefore := ⟨fun a b c => by
  unfold Database.requestBefore
  omega⟩

namespace Database

variable {db : Database} {sched : Sched} {queue owner : String} {now : Time} {limit : ℕ}

/-! ### What is picked -/

/-- The rows that are due, in the order of the query. -/
def dueRows (db : Database) (sched : Sched) (owner queue : String) (now : ℤ) : List RequestRow :=
  (db.requests.rows.filter (db.dispatchable owner queue now)).insertionSort (dispatchBefore sched)

lemma mem_dueRows {now : ℤ} {r : RequestRow} :
    r ∈ db.dueRows sched owner queue now ↔
      r ∈ db.requests ∧ db.dispatchable owner queue now r = true := by
  rw [dueRows, List.mem_insertionSort, List.mem_filter, Table.mem_rows]

lemma picked_eq {now : ℤ} (hfree : ∀ k, sched.locked k = false) :
    db.picked sched owner queue now limit = (db.dueRows sched owner queue now).take limit := by
  have hfilter : (fun r : RequestRow => db.dispatchable owner queue now r && !sched.locked r.key) =
      db.dispatchable owner queue now := by
    funext r
    rw [hfree, Bool.not_false, Bool.and_true]
  rw [picked, hfilter, dueRows]

lemma draws_perm {now : ℤ} :
    (db.draws sched owner queue now limit).Perm
      ((db.picked sched owner queue now limit).map RequestRow.key) := by
  have hjoins : (db.picked sched owner queue now limit).filter (db.joinsActive owner) =
      db.picked sched owner queue now limit := by
    refine filter_eq_self.mpr fun r hr => ?_
    have hdue := List.mem_of_mem_take hr
    rw [List.mem_insertionSort, List.mem_filter, Bool.and_eq_true] at hdue
    obtain ⟨-, -, -, p, hp, ho, hd⟩ := dispatchable_iff.mp hdue.2.1
    rw [joinsActive, hp, any_some, ho, hd]
    simp
  rw [draws, hjoins]
  exact perm_insertionSort _ _

/-! ### What is returned -/

lemma map_key_dispatch_perm :
    ((db.dispatch sched queue owner now limit).1.map key).Perm
      ((db.picked sched owner queue now.unix limit).map RequestRow.key) := by
  refine List.Perm.trans ?_ draws_perm
  refine (List.perm_ext_iff_of_nodup (nodup_map_key_dispatch db sched queue owner now limit)
    (nodup_draws db sched owner queue now.unix limit)).mpr fun k => ?_
  rw [List.mem_map]
  constructor
  · rintro ⟨q, hq, rfl⟩
    exact (mem_dispatch.mp hq).1
  · intro hk
    obtain ⟨r, -, hr, -⟩ := mem_draws hk
    have hkey := key_of_get? hr
    refine ⟨(db.stampRow (db.draws sched owner queue now.unix limit) r).toRequest,
      mem_dispatch.mpr ⟨?_, ?_⟩, ?_⟩
    · show (db.stampRow _ r).key ∈ _
      rw [key_stampRow, hkey]
      exact hk
    · show ((db.dispatch sched queue owner now limit).2.requests.get?
        (db.stampRow _ r).key).map _ = _
      rw [key_stampRow, hkey, get?_dispatch, hr]
      rfl
    · exact (key_stampRow ..).trans hkey

lemma row_of_mem_dispatch {q : Request} (hq : q ∈ (db.dispatch sched queue owner now limit).1) :
    ∃ r, db.requests.get? q.key = some r ∧
      r ∈ db.picked sched owner queue now.unix limit ∧ q.deadline = r.deadline ∧
      q.createdAt = r.createdAt := by
  obtain ⟨hk, hget⟩ := mem_dispatch.mp hq
  obtain ⟨r, hr, hkey⟩ := mem_map.mp ((draws_perm).mem_iff.mp hk)
  have hmem : r ∈ db.requests := by
    have hdue := List.mem_of_mem_take hr
    rw [List.mem_insertionSort, List.mem_filter] at hdue
    exact hdue.1
  have hrow : db.requests.get? q.key = some r := get?_eq_some.mpr ⟨hmem, hkey⟩
  rw [get?_dispatch, hrow] at hget
  have hq : (db.stampRow (db.draws sched owner queue now.unix limit) r).toRequest = q :=
    some.inj hget
  have hstamp : (db.stampRow (db.draws sched owner queue now.unix limit) r).deadline = r.deadline ∧
      (db.stampRow (db.draws sched owner queue now.unix limit) r).createdAt = r.createdAt := by
    unfold stampRow
    split
    · split <;> exact ⟨rfl, rfl⟩
    · exact ⟨rfl, rfl⟩
  refine ⟨r, hrow, hr, ?_, ?_⟩
  · rw [← hq]
    exact hstamp.1
  · rw [← hq]
    exact hstamp.2

lemma length_dispatch (hfree : ∀ k, sched.locked k = false) :
    (db.dispatch sched queue owner now limit).1.length =
      min limit (db.requests.rows.countP (db.dispatchable owner queue now.unix)) := by
  have hperm : ((db.dispatch sched queue owner now limit).1.map key).Perm
      ((db.picked sched owner queue now.unix limit).map RequestRow.key) := map_key_dispatch_perm
  have hlen := hperm.length_eq
  rw [length_map, length_map, picked_eq hfree, length_take, dueRows,
    length_insertionSort, ← countP_eq_length_filter] at hlen
  exact hlen

lemma pairwise_dispatch :
    (db.dispatch sched queue owner now limit).1.Pairwise requestBefore :=
  pairwise_insertionSort _ _

lemma not_before_of_left (hfree : ∀ k, sched.locked k = false) {r : RequestRow}
    (hr : r ∈ db.requests) (hdue : db.dispatchable owner queue now.unix r = true)
    (hleft : r.key ∉ (db.dispatch sched queue owner now limit).1.map key) {q : Request}
    (hq : q ∈ (db.dispatch sched queue owner now limit).1) :
    q.deadline < r.deadline ∨ q.deadline = r.deadline ∧ q.createdAt ≤ r.createdAt := by
  obtain ⟨p, -, hp, hdeadline, hcreated⟩ := row_of_mem_dispatch hq
  have hsorted : (db.dueRows sched owner queue now.unix).Pairwise (dispatchBefore sched) :=
    pairwise_insertionSort _ _
  have hrest : r ∈ (db.dueRows sched owner queue now.unix).drop limit := by
    have hmem : r ∈ db.dueRows sched owner queue now.unix := mem_dueRows.mpr ⟨hr, hdue⟩
    rw [← take_append_drop limit (db.dueRows sched owner queue now.unix)] at hmem
    refine (mem_append.mp hmem).resolve_left fun htaken => hleft ?_
    rw [map_key_dispatch_perm.mem_iff, picked_eq hfree]
    exact mem_map_of_mem htaken
  rw [picked_eq hfree] at hp
  rw [← take_append_drop limit (db.dueRows sched owner queue now.unix)] at hsorted
  have hbefore := (pairwise_append.mp hsorted).2.2 p hp r hrest
  rw [hdeadline, hcreated]
  unfold dispatchBefore at hbefore
  omega

/-! ### What `Enqueue` leaves in a row -/

lemma flatMap_enqueueChunkRows (createdAt : ℤ) (reqs : List Request) :
    (enqueueStarts reqs).flatMap (enqueueChunkRows createdAt reqs) =
      reqs.zipIdx.map fun ri => enqueueRow createdAt ri.2 ri.1 := by
  let all := reqs.zipIdx.map fun ri => enqueueRow createdAt ri.2 ri.1
  have hchunk : enqueueChunkRows createdAt reqs = fun s => (all.drop s).take enqueueChunk := by
    funext s
    refine ext_getElem? fun i => ?_
    simp only [enqueueChunkRows, all, getElem?_map, getElem?_take, getElem?_drop,
      getElem?_zipIdx, Nat.zero_add]
    split
    · cases reqs[s + i]? <;> rfl
    · rfl
  rw [hchunk, enqueueStarts, flatMap_take_drop, take_of_length_le]
  rw [length_map, length_zipIdx]
  unfold enqueueChunk
  omega

lemma get?_enqueue_of_getElem {db' : Database} {createdAt : ℤ} {reqs : List Request}
    (h : db.enqueue createdAt reqs = some db') {i : ℕ} {q : Request} (hq : reqs[i]? = some q) :
    db'.requests.get? q.key = some (enqueueRow createdAt i q) := by
  obtain ⟨t, ht, rfl⟩ := map_eq_some_iff.mp h
  have hrows := rows_foldlM_insertAll ht
  rw [flatMap_enqueueChunkRows] at hrows
  refine get?_eq_some.mpr ⟨?_, rfl⟩
  show enqueueRow createdAt i q ∈ t.rows
  rw [hrows]
  refine mem_append_right _ (mem_map.mpr ⟨(q, i), ?_, rfl⟩)
  exact mem_zipIdx_iff_getElem?.mpr hq

lemma ne_of_enqueue {db' : Database} {createdAt : ℤ} {reqs : List Request}
    (h : db.enqueue createdAt reqs = some db') {i j : ℕ} {a b : Request} (ha : reqs[i]? = some a)
    (hb : reqs[j]? = some b) (hij : i ≠ j) : a.key ≠ b.key := by
  intro hkey
  have hra := get?_enqueue_of_getElem h ha
  have hrb := get?_enqueue_of_getElem h hb
  rw [hkey, hrb, some.injEq] at hra
  have hcreated : createdAt + (j : ℤ) = createdAt + (i : ℤ) := congrArg RequestRow.createdAt hra
  omega

end Database

lemma RowEffect.exists_row {db db' : Database} {k : Key} {s : Stmt} {evs : List Event}
    (h : RowEffect db db' k s evs) (hnew : Event.enqueued k ∉ evs) {r' : RequestRow}
    (hr' : db'.requests.get? k = some r') :
    ∃ r, db.requests.get? k = some r ∧ r'.deadline = r.deadline ∧ r'.createdAt = r.createdAt := by
  cases h with
  | keep hkeep => exact ⟨r', hkeep ▸ hr', rfl, rfl⟩
  | enqueue => exact absurd mem_cons_self hnew
  | ack hr hnone => cases hr'.symm.trans hnone
  | cancel hr hset | dispatch hr hset | undispatch hr hset | retry hr hset | reset hr hset =>
    cases hr'.symm.trans hset
    exact ⟨_, hr, rfl, rfl⟩

lemma World.row_of_steps {w w' : World} (hsteps : Relation.ReflTransGen World.Step w w') {k : Key} :
    enqueueCount w.log k ≤ enqueueCount w'.log k ∧
      (enqueueCount w'.log k = enqueueCount w.log k → ∀ r', w'.db.requests.get? k = some r' →
        ∃ r, w.db.requests.get? k = some r ∧ r'.deadline = r.deadline ∧
          r'.createdAt = r.createdAt) := by
  induction hsteps with
  | refl => exact ⟨le_refl _, fun _ r' hr' => ⟨r', hr', rfl, rfl⟩⟩
  | tail _ hstep ih =>
    obtain ⟨hle, hkept⟩ := ih
    obtain ⟨sched, s, rep, hexec⟩ := hstep
    obtain ⟨hdb, hlog⟩ := World.exec_eq_some.mp hexec
    obtain ⟨evs, hevs, heff⟩ := exec_rowEffect hdb k
    have hcount := enqueueCount_append _ _ k ▸ congrArg (enqueueCount · k) hlog
    rw [enqueueCount_eq_aboutKey (events ..), hevs] at hcount
    refine ⟨by omega, fun hsame r' hr' => ?_⟩
    have hnew : Event.enqueued k ∉ evs := count_eq_zero.mp (by omega)
    obtain ⟨r₁, hr₁, hd₁, hc₁⟩ := heff.exists_row hnew hr'
    obtain ⟨r, hr, hd, hc⟩ := hkept (by omega) r₁ hr₁
    exact ⟨r, hr, hd₁.trans hd, hc₁.trans hc⟩

/-! ### The order -/

lemma idxOf_lt_idxOf {l : List Request} (hsorted : l.Pairwise requestBefore)
    (hnd : (l.map key).Nodup) {a b : Request} (ha : a ∈ l) (hb : b ∈ l)
    (hkey : a.key ≠ b.key) (hnot : ¬requestBefore b a) :
    (l.map key).idxOf a.key < (l.map key).idxOf b.key := by
  have hat : ∀ c ∈ l, ∃ h : (l.map key).idxOf c.key < l.length,
      l[(l.map key).idxOf c.key] = c := by
    intro c hc
    have hidx := idxOf_lt_length_iff.mpr (mem_map_of_mem (f := key) hc)
    have hlt : (l.map key).idxOf c.key < l.length := by
      rwa [length_map] at hidx
    refine ⟨hlt, inj_on_of_nodup_map hnd (getElem_mem hlt) hc ?_⟩
    have hget := getElem_idxOf hidx
    rwa [getElem_map] at hget
  obtain ⟨hia, hla⟩ := hat a ha
  obtain ⟨hib, hlb⟩ := hat b hb
  rcases lt_trichotomy ((l.map key).idxOf a.key) ((l.map key).idxOf b.key) with
    hlt | heq | hgt
  · exact hlt
  · refine absurd ?_ hkey
    rw [← hla, ← hlb]
    simp only [heq]
  · have hbefore := pairwise_iff_getElem.mp hsorted _ _ hib hia hgt
    rw [hla, hlb] at hbefore
    exact absurd hbefore hnot

/-- `Dispatch` is earliest deadline first and keeps the order of submission.  While nobody else
holds requests locked, it returns as many eligible requests as it may, or all of them, sorted by
deadline and creation time, and leaves no eligible request behind that comes before a returned one.
Two requests of one `Enqueue` with equal deadlines that are both eligible are not returned out of
order, whatever has happened since the `Enqueue`. -/
theorem dispatch_earliest_first (w : World) (sched : Sched) (hfree : ∀ k, sched.locked k = false)
    (queue owner : String) (now : Time) (limit : ℕ) :
    let out := (w.db.dispatch sched queue owner now limit).1
    let eligible := w.db.dispatchable owner queue now.unix
    out.length = min limit (w.db.requests.rows.countP eligible) ∧
      (∀ q ∈ out, ∃ r, w.db.requests.get? q.key = some r ∧ eligible r = true ∧
        q.deadline = r.deadline ∧ q.createdAt = r.createdAt) ∧
      (out.map key).Nodup ∧ out.Pairwise requestBefore ∧
      (∀ r ∈ w.db.requests, eligible r = true → r.key ∉ out.map key → ∀ q ∈ out,
        ¬(r.deadline < q.deadline ∨ r.deadline = q.deadline ∧ r.createdAt < q.createdAt)) ∧
      ∀ (w₀ w₁ : World) (sched₀ : Sched) (createdAt : ℤ) (reqs : List Request),
        w₀.exec sched₀ (.enqueue createdAt reqs) = some ((), w₁) →
        Relation.ReflTransGen World.Step w₁ w →
        ∀ (i j : ℕ) (a b : Request), i < j → reqs[i]? = some a → reqs[j]? = some b →
          a.deadline = b.deadline →
          enqueueCount w.log a.key = enqueueCount w₁.log a.key →
          enqueueCount w.log b.key = enqueueCount w₁.log b.key →
          ∀ ra rb, w.db.requests.get? a.key = some ra → eligible ra = true →
            w.db.requests.get? b.key = some rb → eligible rb = true →
            b.key ∈ out.map key →
            (out.map key).idxOf a.key < (out.map key).idxOf b.key := by
  intro out eligible
  have hout : ∀ q ∈ out, ∃ r, w.db.requests.get? q.key = some r ∧ eligible r = true ∧
      q.deadline = r.deadline ∧ q.createdAt = r.createdAt := by
    intro q hq
    obtain ⟨r, hr, hpicked, hd, hc⟩ := row_of_mem_dispatch hq
    rw [picked_eq hfree] at hpicked
    exact ⟨r, hr, (mem_dueRows.mp (mem_of_mem_take hpicked)).2, hd, hc⟩
  have hleft : ∀ r ∈ w.db.requests, eligible r = true → r.key ∉ out.map key → ∀ q ∈ out,
      ¬(r.deadline < q.deadline ∨ r.deadline = q.deadline ∧ r.createdAt < q.createdAt) := by
    intro r hr hdue hnot q hq
    have hbefore := not_before_of_left hfree hr hdue hnot hq
    omega
  refine ⟨length_dispatch hfree, hout, nodup_map_key_dispatch ..,
    pairwise_dispatch, hleft, ?_⟩
  intro w₀ w₁ sched₀ createdAt reqs henq hsteps i j a b hij ha hb hdeadline hca hcb ra rb hra hea
    hrb heb hbout
  obtain ⟨hdb, -⟩ := World.exec_eq_some.mp henq
  have henqueue : w₀.db.enqueue createdAt reqs = some w₁.db := by
    obtain ⟨db₁, hdb₁, heq⟩ := map_eq_some_iff.mp hdb
    cases heq
    exact hdb₁
  have hrow : ∀ {n : ℕ} {c : Request} {r : RequestRow}, reqs[n]? = some c →
      enqueueCount w.log c.key = enqueueCount w₁.log c.key →
      w.db.requests.get? c.key = some r →
      r.deadline = c.deadline ∧ r.createdAt = createdAt + n := by
    intro n c r hc hcount hr
    obtain ⟨r₁, hr₁, hd, hcr⟩ := (World.row_of_steps hsteps).2 hcount r hr
    rw [get?_enqueue_of_getElem henqueue hc, some.injEq] at hr₁
    rw [hd, hcr, ← hr₁]
    exact ⟨rfl, rfl⟩
  obtain ⟨hda, hta⟩ := hrow ha hca hra
  obtain ⟨hdb', htb⟩ := hrow hb hcb hrb
  obtain ⟨qb, hqb, hqbkey⟩ := mem_map.mp hbout
  obtain ⟨rb', hrb', -, hqbd, hqbt⟩ := hout qb hqb
  rw [hqbkey, hrb, some.injEq] at hrb'
  subst hrb'
  have haout : a.key ∈ out.map key := by
    by_contra hnot
    have hka := key_of_get? hra
    refine hleft ra (mem_of_get? hra) hea (hka.symm ▸ hnot) qb hqb (.inr ?_)
    omega
  obtain ⟨qa, hqa, hqakey⟩ := mem_map.mp haout
  obtain ⟨ra', hra', -, hqad, hqat⟩ := hout qa hqa
  rw [hqakey, hra, some.injEq] at hra'
  subst hra'
  have hkey : qa.key ≠ qb.key := by
    rw [hqakey, hqbkey]
    exact ne_of_enqueue henqueue ha hb hij.ne
  have hnot : ¬requestBefore qb qa := by
    unfold requestBefore
    omega
  rw [← hqakey, ← hqbkey]
  exact idxOf_lt_idxOf pairwise_dispatch (nodup_map_key_dispatch ..) hqa hqb
    hkey hnot

/-- A dispatcher holds all partitions. -/
def ownedRun : List Stmt :=
  [.ensurePartitions "q", .acquirePartitions "q" ⟨"dispatcher-0", first_ne⟩ 0 30000000000 64]

/-- Three requests of one call, the last one with the earliest deadline. -/
def submission : List Request :=
  [⟨⟨"r1", "t1"⟩, "q", 0, 0, 0, 600, "", [], false, 0⟩,
    ⟨⟨"r2", "t2"⟩, "q", 0, 0, 0, 600, "", [], false, 0⟩,
    ⟨⟨"r3", "t3"⟩, "q", 0, 0, 0, 300, "", [], false, 0⟩]

/-- `Dispatch` returns the last request first and the others in the order of the call. -/
theorem submission_in_order :
    let w₀ := World.initial.run ownedRun
    let w := w₀.run [.enqueue 7 submission]
    let out := (w.db.dispatch Sched.plain "q" "dispatcher-0" 0 3).1
    out.map (fun q => q.key.id) = ["r3", "r1", "r2"] ∧ out.length = 3 ∧
      (out.map key).idxOf ⟨"r1", "t1"⟩ < (out.map key).idxOf ⟨"r2", "t2"⟩ := by
  intro w₀ w out
  have hids : out.map (fun q => q.key.id) = ["r3", "r1", "r2"] := by decide +kernel
  have hcount : min 3 (w.db.requests.rows.countP (w.db.dispatchable "dispatcher-0" "q" 0)) = 3 := by
    decide +kernel
  have hrun : w₀.exec Sched.plain (.enqueue 7 submission) = some ((), w) := by
    have hsome : (w₀.exec Sched.plain (.enqueue 7 submission)).isSome = true := by decide +kernel
    obtain ⟨⟨u, w'⟩, hw'⟩ := isSome_iff_exists.mp hsome
    have hw : w = w' := by
      show ((w₀.exec Sched.plain (.enqueue 7 submission)).map Prod.snd).getD w₀ = w'
      rw [hw']
      rfl
    rw [hw]
    exact hw'
  obtain ⟨hlen, -, -, -, -, horder⟩ :=
    dispatch_earliest_first w Sched.plain (fun _ => rfl) "q" "dispatcher-0" 0 3
  let a : Request := ⟨⟨"r1", "t1"⟩, "q", 0, 0, 0, 600, "", [], false, 0⟩
  let b : Request := ⟨⟨"r2", "t2"⟩, "q", 0, 0, 0, 600, "", [], false, 0⟩
  obtain ⟨hra, hea, hrb, heb, hbout⟩ :
      w.db.requests.get? a.key = some (enqueueRow 7 0 a) ∧
        w.db.dispatchable "dispatcher-0" "q" 0 (enqueueRow 7 0 a) = true ∧
        w.db.requests.get? b.key = some (enqueueRow 7 1 b) ∧
        w.db.dispatchable "dispatcher-0" "q" 0 (enqueueRow 7 1 b) = true ∧
        b.key ∈ out.map key := by
    decide +kernel
  exact ⟨hids, hlen.trans hcount, horder w₀ w Sched.plain 7 submission hrun .refl 0 1 a b
    Nat.zero_lt_one rfl rfl rfl rfl rfl _ _ hra hea hrb heb hbout⟩

end LlmdAsync.SqlQueue
