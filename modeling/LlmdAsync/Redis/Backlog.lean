import LlmdAsync.Redis.Commands
import LlmdAsync.SqlQueue.Schema

/-!
# Queue scores and backlogs

`QueueScore` packs the sequence number of a request into the 21 bits below its deadline.  Times
`2 ^ 21` a score is an integer, `scoreNumerator`: comparing scores is comparing deadlines first and
sequence numbers second, no sequence number carries into the next deadline, and for deadlines below
`2 ^ 32` the integer has 53 bits.  Hence `QueueBacklog` and `Store.Backlog`, which count on the
scores and on the deadline column, count the same requests.
-/

namespace LlmdAsync

namespace Redis.InternalRequest

/-- The sequence number, as far as a score can hold it. -/
def scoreSeq (ir : InternalRequest) : ℤ := min (max ir.routing.enqueueSeq 0) (2 ^ 21 - 1)

/-- What scores compare: the deadline, then the sequence number. -/
def scoreKey (ir : InternalRequest) : ℤ ×ₗ ℤ := toLex (ir.deadline, ir.scoreSeq)

/-- The score as a multiple of `2 ^ (-21)`. -/
def scoreNumerator (ir : InternalRequest) : ℤ := ir.deadline * 2 ^ 21 + ir.scoreSeq

variable (a b : InternalRequest)

lemma scoreSeq_mem : 0 ≤ a.scoreSeq ∧ a.scoreSeq < 2 ^ 21 := by
  unfold scoreSeq
  omega

lemma queueScore_eq : a.queueScore = a.scoreNumerator / 2 ^ 21 := by
  rw [scoreNumerator, Int.cast_add, add_div, Int.cast_mul, Int.cast_pow, Int.cast_ofNat,
    mul_div_cancel_right₀ _ (by norm_num)]
  rfl

lemma queueScore_le_iff : a.queueScore ≤ b.queueScore ↔ a.scoreKey ≤ b.scoreKey := by
  have ha := a.scoreSeq_mem
  have hb := b.scoreSeq_mem
  rw [queueScore_eq, queueScore_eq, div_le_div_iff_of_pos_right (by norm_num), Int.cast_le,
    scoreKey, scoreKey, Prod.Lex.toLex_le_toLex, scoreNumerator, scoreNumerator]
  dsimp only
  omega

lemma queueScore_lt_iff (t : ℤ) : a.queueScore < t ↔ a.deadline < t := by
  have ha := a.scoreSeq_mem
  have hcast : (t : ℚ) * 2 ^ 21 = (t * 2 ^ 21 : ℤ) := by push_cast; rfl
  rw [queueScore_eq, div_lt_iff₀ (by norm_num), hcast, Int.cast_lt, scoreNumerator]
  omega

lemma exists_significand (hd : 0 ≤ a.deadline ∧ a.deadline < 2 ^ 32) :
    ∃ m : ℕ, m < 2 ^ 53 ∧ a.queueScore = m / 2 ^ 21 := by
  have ha := a.scoreSeq_mem
  obtain ⟨m, hm⟩ : ∃ m : ℕ, a.scoreNumerator = m := by
    refine Int.eq_ofNat_of_zero_le ?_
    unfold scoreNumerator
    omega
  refine ⟨m, ?_, by rw [queueScore_eq, hm, Int.cast_natCast]⟩
  unfold scoreNumerator at hm
  omega

end Redis.InternalRequest

/-- `QueueBacklog` for one queue: `ZCARD`, and for each window in seconds the `ZCOUNT` of the scores
below the first second after it. -/
def Redis.queueBacklog {M : Type} (pending : SortedSet M ℚ) (now : ℤ) (windows : List ℤ) :
    ℕ × List ℕ :=
  (pending.rows.length,
    windows.map fun w => pending.rows.countP fun r => decide (r.2 < ((now + w + 1 : ℤ) : ℚ)))

/-- The rows `Store.Backlog` counts. -/
def SqlQueue.Database.pendingRows (db : SqlQueue.Database) (queue : String) :
    List SqlQueue.RequestRow :=
  db.requests.rows.filter fun r => decide (r.queue = queue ∧ r.dispatchEpoch = 0)

/-- `Store.Backlog`. -/
def SqlQueue.Database.backlog (db : SqlQueue.Database) (queue : String) (now : ℤ)
    (windows : List ℤ) : ℕ × List ℕ :=
  ((db.pendingRows queue).length,
    windows.map fun w => (db.pendingRows queue).countP fun r => decide (r.deadline ≤ now + w))

namespace Redis

/-- How many requests there are, and how many have a deadline within each window. -/
def dueWithin (requests : List InternalRequest) (now : ℤ) (windows : List ℤ) : ℕ × List ℕ :=
  (requests.length, windows.map fun w => requests.countP fun ir => decide (ir.deadline ≤ now + w))

variable {M : Type} {requests : List InternalRequest} {now : ℤ} {windows : List ℤ}

/-- The pending set holds the requests, in any order, each of them at its score. -/
def Scored (codec : Codec M) (pending : SortedSet M ℚ) (requests : List InternalRequest) : Prop :=
  (pending.rows.map fun r => (codec.decode r.1, r.2)).Perm
    (requests.map fun ir => (some ir, ir.queueScore))

lemma queueBacklog_eq {codec : Codec M} {pending : SortedSet M ℚ}
    (h : Scored codec pending requests) :
    queueBacklog pending now windows = dueWithin requests now windows := by
  have hlength : pending.rows.length = requests.length := by simpa using h.length_eq
  refine Prod.ext hlength (List.map_congr_left fun w _ => ?_)
  have hcount := h.countP_eq fun r => decide (r.2 < ((now + w + 1 : ℤ) : ℚ))
  simpa only [List.countP_map, Function.comp_def, InternalRequest.queueScore_lt_iff,
    Int.lt_add_one_iff] using hcount

lemma backlog_eq {db : SqlQueue.Database} {queue : String}
    (h : ((db.pendingRows queue).map fun r => r.deadline).Perm
      (requests.map fun ir => ir.deadline)) :
    db.backlog queue now windows = dueWithin requests now windows := by
  have hlength : (db.pendingRows queue).length = requests.length := by simpa using h.length_eq
  refine Prod.ext hlength (List.map_congr_left fun w _ => ?_)
  have hcount := h.countP_eq fun d => decide (d ≤ now + w)
  simpa only [List.countP_map, Function.comp_def] using hcount

/-- Scores order requests by deadline and then by sequence number, fit into a double, and count the
same backlog as the table of requests does. -/
theorem queue_scores_pack (codec : Codec M) :
    (∀ a b : InternalRequest, a.queueScore ≤ b.queueScore ↔ a.scoreKey ≤ b.scoreKey) ∧
    (∀ a : InternalRequest, 0 ≤ a.deadline ∧ a.deadline < 2 ^ 32 →
      ∃ m : ℕ, m < 2 ^ 53 ∧ a.queueScore = m / 2 ^ 21) ∧
    ∀ (requests : List InternalRequest) (pending : SortedSet M ℚ) (db : SqlQueue.Database)
      (queue : String) (now : ℤ) (windows : List ℤ), Scored codec pending requests →
      ((db.pendingRows queue).map fun r => r.deadline).Perm
        (requests.map fun ir => ir.deadline) →
      queueBacklog pending now windows = dueWithin requests now windows ∧
        db.backlog queue now windows = dueWithin requests now windows :=
  ⟨InternalRequest.queueScore_le_iff, InternalRequest.exists_significand,
    fun _ _ _ _ _ _ hscored hrows => ⟨queueBacklog_eq hscored, backlog_eq hrows⟩⟩

/-- A request with deadline 100. -/
def dueAt100 (id : String) (seq : ℤ) : InternalRequest :=
  ⟨id, 100, none, ⟨0, "", "t", "q", "", 0, false, seq, "", []⟩⟩

/-- Two requests with the same deadline are ordered by their sequence numbers, and both are due
within 40 seconds at 60, not within 39. -/
theorem backlog_of_equal_deadlines :
    let pending : SortedSet (Option InternalRequest) ℚ :=
      Hash.hset (Hash.hset .empty (some (dueAt100 "a" 3)) (dueAt100 "a" 3).queueScore)
        (some (dueAt100 "b" 4)) (dueAt100 "b" 4).queueScore
    let db : SqlQueue.Database := { SqlQueue.Database.initial with
      requests := Table.put (Table.put .empty
        ⟨⟨"a", "t"⟩, "q", 0, 100, 0, 0, 0, false, "", [], 0⟩)
        ⟨⟨"b", "t"⟩, "q", 1, 100, 0, 0, 0, false, "", [], 0⟩ }
    (dueAt100 "a" 3).queueScore ≤ (dueAt100 "b" 4).queueScore ∧
      ¬(dueAt100 "b" 4).queueScore ≤ (dueAt100 "a" 3).queueScore ∧
      (∃ m : ℕ, m < 2 ^ 53 ∧ (dueAt100 "b" 4).queueScore = m / 2 ^ 21) ∧
      queueBacklog pending 60 [39, 40] = (2, [0, 2]) ∧
      db.backlog "q" 60 [39, 40] = (2, [0, 2]) := by
  intro pending db
  obtain ⟨horder, hbits, hcount⟩ := queue_scores_pack plainCodec
  obtain ⟨hredis, hsql⟩ := hcount [dueAt100 "b" 4, dueAt100 "a" 3] pending db "q" 60 [39, 40]
    (List.Perm.refl _) (List.Perm.refl _)
  exact ⟨(horder _ _).mpr (by decide), (horder _ _).not.mpr (by decide), hbits _ (by decide),
    hredis, hsql⟩

end Redis

end LlmdAsync
