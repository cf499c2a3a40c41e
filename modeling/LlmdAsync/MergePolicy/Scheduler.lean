import LlmdAsync.FlowControl.Gate
import LlmdAsync.MergePolicy.Bucket

/-!
# The scheduler of the tier-priority policy

The `scheduler` of `pkg/async/mergepolicy/tierpriority`: six buckets, one per lane, in the order of
their priority.  `Push` and `Pop` each run under the mutex of the scheduler, and wait by releasing
it and looking again, so that a call that waits is a call that has not happened yet.  A source is
identified by its channel.

The counter of active readers, which nothing reads, is left out.
-/

namespace LlmdAsync.MergePolicy

open FlowControl List Function Finset Bucket

/-- `TierAsync`. -/
def tierAsync : String := "async"

/-- `TierBatch`. -/
def tierBatch : String := "batch"

/-- `getPriorityIndex`. -/
def getPriorityIndex (ir : GateRequest) (tierLabel : String) : Fin 6 :=
  let tier := (Hash.hget ir.labels tierLabel).getD ""
  let tierPri : Fin 6 :=
    if tier = tierInteractive then 0
    else if tier = tierAsync then 1
    else if tier = tierBatch then 2
    else 2
  let classPri : Fin 6 := if ir.getClassification = classificationReserved then 0 else 1
  classPri * 3 + tierPri

/-- `msgAndMeta`. -/
structure MsgAndMeta (κ : Type) where
  ir : GateRequest
  channel : κ

/-- `scheduler`. -/
structure Scheduler (κ : Type) where
  totalBuffered : ℤ
  maxBuffered : ℤ
  tierLabel : String
  closed : Bool
  buckets : Fin 6 → Bucket κ (MsgAndMeta κ)

/-- `newScheduler`. -/
def newScheduler {κ : Type} (maxBuffered : ℤ) (tierLabel : String) : Scheduler κ :=
  ⟨0, maxBuffered, tierLabel, false, fun _ => newBucket⟩

namespace Scheduler

variable {κ : Type} [DecidableEq κ]

def lane (s : Scheduler κ) (mm : MsgAndMeta κ) : Fin 6 := getPriorityIndex mm.ir s.tierLabel

/-- `Push`, or `none` if it waits. -/
def push (s : Scheduler κ) (ir : GateRequest) (channel : κ) : Option (Bool × Scheduler κ) :=
  let pri := getPriorityIndex ir s.tierLabel
  if (s.buckets pri).size ≥ s.maxBuffered ∧ s.closed = false then none
  else if s.closed then some (false, s)
  else some (true, { s with
    buckets := Function.update s.buckets pri ((s.buckets pri).push channel ⟨ir, channel⟩)
    totalBuffered := s.totalBuffered + 1 })

/-- The loop of `Pop` over the buckets. -/
def popFrom (s : Scheduler κ) : List (Fin 6) → Except String (Option (MsgAndMeta κ) × Scheduler κ)
  | [] => .ok (none, s)
  | i :: is =>
    match (s.buckets i).pop with
    | .error e => .error e
    | .ok (some mm, b) => .ok (some mm, { s with
        buckets := Function.update s.buckets i b
        totalBuffered := s.totalBuffered - 1 })
    | .ok (none, _) => s.popFrom is

/-- `Pop`, or `none` if it waits. -/
def pop (s : Scheduler κ) : Option (Except String (Option (MsgAndMeta κ) × Scheduler κ)) :=
  if s.totalBuffered = 0 then if s.closed then some (.ok (none, s)) else none
  else some (s.popFrom (List.finRange 6))

end Scheduler

/-! ### Runs -/

/-- What readers and the popper call. -/
inductive MergeOp (κ : Type) where
  | push (ir : GateRequest) (channel : κ)
  | pop

/-- The scheduler, with the messages that have been pushed and popped so far, oldest first. -/
structure Merge (κ : Type) where
  scheduler : Scheduler κ
  pushed : List (MsgAndMeta κ)
  popped : List (MsgAndMeta κ)

namespace Merge

variable {κ : Type} [DecidableEq κ]

def initial (maxBuffered : ℤ) (tierLabel : String) : Merge κ :=
  ⟨newScheduler maxBuffered tierLabel, [], []⟩

def next (x : Merge κ) : MergeOp κ → Merge κ
  | .push ir channel =>
    match x.scheduler.push ir channel with
    | some (true, s) => { x with scheduler := s, pushed := x.pushed ++ [⟨ir, channel⟩] }
    | _ => x
  | .pop =>
    match x.scheduler.pop with
    | some (.ok (some mm, s)) => { x with scheduler := s, popped := x.popped ++ [mm] }
    | _ => x

def run (x : Merge κ) (ops : List (MergeOp κ)) : Merge κ := ops.foldl next x

/-- The messages of a lane and a source. -/
def ofSource (x : Merge κ) (i : Fin 6) (k : κ) (l : List (MsgAndMeta κ)) : List (MsgAndMeta κ) :=
  l.filter fun mm => x.scheduler.lane mm = i ∧ mm.channel = k

/-- What holds after every run. -/
structure Sound (x : Merge κ) : Prop where
  notClosed : x.scheduler.closed = false
  buckets : ∀ i, (x.scheduler.buckets i).Sound
  /-- Messages are in the queue of their lane and source. -/
  contents : ∀ i k, ∀ mm ∈ (x.scheduler.buckets i).queue k, x.scheduler.lane mm = i ∧ mm.channel = k
  total : x.scheduler.totalBuffered = ∑ i, (x.scheduler.buckets i).size
  bounded : 0 ≤ x.scheduler.maxBuffered →
    ∀ i, (x.scheduler.buckets i).size ≤ x.scheduler.maxBuffered
  /-- What has been pushed has been popped or is queued, in the same order. -/
  fifo : ∀ i k, x.ofSource i k x.pushed =
    x.ofSource i k x.popped ++ (x.scheduler.buckets i).queue k

lemma sound_initial (maxBuffered : ℤ) (tierLabel : String) :
    (initial maxBuffered tierLabel : Merge κ).Sound where
  notClosed := rfl
  buckets _ := sound_newBucket
  contents _ _ _ hmm := absurd hmm not_mem_nil
  total := rfl
  bounded h _ := h
  fifo _ _ := rfl

end Merge

namespace Scheduler

variable {κ : Type} [DecidableEq κ] {s : Scheduler κ}

omit [DecidableEq κ] in
lemma sum_size_update {μ : Type} (f : Fin 6 → Bucket κ μ) (i : Fin 6) (b : Bucket κ μ) :
    ∑ j, (update f i b j).size = ∑ j, (f j).size + (b.size - (f i).size) := by
  have hsize : (fun j => (update f i b j).size) =
      update (fun j => (f j).size) i b.size := by
    funext j
    rcases eq_or_ne j i with rfl | hne
    · simp
    · simp [hne]
  have hold := add_sum_erase univ (fun j => (f j).size) (mem_univ i)
  rw [hsize, sum_update_of_mem (mem_univ i), sdiff_singleton_eq_erase]
  omega

/-- An open scheduler's `Push` waits for as long as the lane is full, and then puts the message at
the end of its lane and source. -/
lemma push_spec (hopen : s.closed = false) (ir : GateRequest) (channel : κ) :
    (s.push ir channel = none ↔ s.maxBuffered ≤ (s.buckets (s.lane ⟨ir, channel⟩)).size) ∧
    ((s.buckets (s.lane ⟨ir, channel⟩)).size < s.maxBuffered →
      s.push ir channel = some (true, { s with
        buckets := update s.buckets (s.lane ⟨ir, channel⟩)
          ((s.buckets (s.lane ⟨ir, channel⟩)).push channel ⟨ir, channel⟩)
        totalBuffered := s.totalBuffered + 1 })) := by
  by_cases hfull : s.maxBuffered ≤ (s.buckets (getPriorityIndex ir s.tierLabel)).size
  · refine ⟨iff_of_true (by simp [push, hfull, hopen]) hfull, fun hroom => ?_⟩
    exact absurd hfull (not_le.mpr hroom)
  · exact ⟨iff_of_false (by simp [push, hfull, hopen]) hfull,
      fun _ => by simp [push, lane, hfull, hopen]⟩

lemma queue_update_push (ir : GateRequest) (channel : κ) (i : Fin 6) (k : κ) :
    (update s.buckets (s.lane ⟨ir, channel⟩)
        ((s.buckets (s.lane ⟨ir, channel⟩)).push channel ⟨ir, channel⟩) i).queue k =
      (s.buckets i).queue k ++
        if s.lane ⟨ir, channel⟩ = i ∧ channel = k then [⟨ir, channel⟩] else [] := by
  rcases eq_or_ne i (s.lane ⟨ir, channel⟩) with rfl | hne
  · rw [update_self, queue_push]
    rcases eq_or_ne k channel with rfl | hk
    · rw [if_pos rfl, if_pos ⟨rfl, rfl⟩]
    · rw [if_neg hk, if_neg fun h => hk h.2.symm, append_nil]
  · rw [update_of_ne hne, if_neg fun h => hne h.1.symm, append_nil]

lemma popFrom_spec (hs : ∀ i, (s.buckets i).Sound) (is : List (Fin 6)) :
    (∀ i ∈ is, (s.buckets i).keys = []) ∧ s.popFrom is = .ok (none, s) ∨
    ∃ pre i post key mm rest, is = pre ++ i :: post ∧ (∀ j ∈ pre, (s.buckets j).keys = []) ∧
      (s.buckets i).keys[(s.buckets i).nextIdx]? = some key ∧ (s.buckets i).queue key = mm :: rest ∧
      s.popFrom is = .ok (some mm, { s with
        buckets := update s.buckets i ((s.buckets i).advance key rest)
        totalBuffered := s.totalBuffered - 1 }) := by
  induction is with
  | nil => exact .inl ⟨fun i hi => absurd hi not_mem_nil, rfl⟩
  | cons i is ih =>
    rcases (hs i).pop with ⟨hnil, hpop⟩ | ⟨key, mm, rest, hkey, hq, hpop⟩
    · have hskip : s.popFrom (i :: is) = s.popFrom is := by rw [popFrom, hpop]
      rcases ih with ⟨hempty, heq⟩ | ⟨pre, i', post, key, mm, rest, rfl, hpre, hkey, hq, heq⟩
      · refine .inl ⟨fun j hj => ?_, hskip.trans heq⟩
        rcases mem_cons.mp hj with rfl | hj
        · exact hnil
        · exact hempty j hj
      · refine .inr ⟨i :: pre, i', post, key, mm, rest, rfl, fun j hj => ?_, hkey, hq,
          hskip.trans heq⟩
        rcases mem_cons.mp hj with rfl | hj
        · exact hnil
        · exact hpre j hj
    · exact .inr ⟨[], i, is, key, mm, rest, rfl, fun j hj => absurd hj not_mem_nil, hkey, hq,
        by rw [popFrom, hpop]⟩

lemma pop_spec (hs : ∀ i, (s.buckets i).Sound)
    (htotal : s.totalBuffered = ∑ i, (s.buckets i).size) (hopen : s.closed = false) :
    (∀ i, (s.buckets i).size = 0) ∧ s.pop = none ∨
    ∃ i key mm rest, (∀ j < i, (s.buckets j).size = 0) ∧
      (s.buckets i).keys[(s.buckets i).nextIdx]? = some key ∧ (s.buckets i).queue key = mm :: rest ∧
      s.pop = some (.ok (some mm, { s with
        buckets := update s.buckets i ((s.buckets i).advance key rest)
        totalBuffered := s.totalBuffered - 1 })) := by
  have hzero : s.totalBuffered = 0 ↔ ∀ i, (s.buckets i).size = 0 := by
    rw [htotal, sum_eq_zero_iff_of_nonneg fun i _ => (hs i).size_nonneg]
    simp
  by_cases h0 : s.totalBuffered = 0
  · exact .inl ⟨hzero.mp h0, by simp [pop, h0, hopen]⟩
  · right
    rcases popFrom_spec hs (finRange 6) with
      ⟨hempty, -⟩ | ⟨pre, i, post, key, mm, rest, hsplit, hpre, hkey, hq, heq⟩
    · exact absurd (hzero.mpr fun i => (hs i).size_eq_zero.mpr (hempty i (mem_finRange i))) h0
    · refine ⟨i, key, mm, rest, fun j hj => (hs j).size_eq_zero.mpr (hpre j ?_), hkey, hq, ?_⟩
      · have hsorted := pairwise_lt_finRange 6
        have hmem := mem_finRange j
        rw [hsplit] at hsorted hmem
        rcases mem_append.mp hmem with hmem | hmem
        · exact hmem
        · rcases mem_cons.mp hmem with rfl | hmem
          · exact absurd hj (lt_irrefl j)
          · have hlt := (pairwise_cons.mp (pairwise_append.mp hsorted).2.1).1 j hmem
            exact absurd hj hlt.asymm
      · rw [pop, if_neg h0, heq]

end Scheduler

namespace Merge

variable {κ : Type} [DecidableEq κ] {x : Merge κ}

lemma Sound.change (hx : x.Sound) {i : Fin 6} {b : Bucket κ (MsgAndMeta κ)} {total : ℤ}
    {pushed popped : List (MsgAndMeta κ)} (hb : b.Sound)
    (hcontents : ∀ k, ∀ mm ∈ b.queue k, x.scheduler.lane mm = i ∧ mm.channel = k)
    (htotal : total = x.scheduler.totalBuffered + (b.size - (x.scheduler.buckets i).size))
    (hbounded : 0 ≤ x.scheduler.maxBuffered → b.size ≤ x.scheduler.maxBuffered)
    (hfifo : ∀ j k, x.ofSource j k pushed = x.ofSource j k popped ++
      (update x.scheduler.buckets i b j).queue k) :
    Sound ⟨{ x.scheduler with buckets := update x.scheduler.buckets i b, totalBuffered := total },
      pushed, popped⟩ where
  notClosed := hx.notClosed
  buckets j := by
    rcases eq_or_ne j i with rfl | hne
    · simpa using hb
    · simpa [hne] using hx.buckets j
  contents j k mm hmm := by
    rcases eq_or_ne j i with rfl | hne
    · exact hcontents k mm (by simpa using hmm)
    · exact hx.contents j k mm (by simpa [hne] using hmm)
  total := by
    rw [Scheduler.sum_size_update, ← hx.total]
    exact htotal
  bounded h j := by
    rcases eq_or_ne j i with rfl | hne
    · simpa using hbounded h
    · simpa [hne] using hx.bounded h j
  fifo := hfifo

lemma ofSource_append (x : Merge κ) (i : Fin 6) (k : κ) (l : List (MsgAndMeta κ))
    (mm : MsgAndMeta κ) :
    x.ofSource i k (l ++ [mm]) =
      x.ofSource i k l ++ if x.scheduler.lane mm = i ∧ mm.channel = k then [mm] else [] := by
  rw [ofSource, List.filter_append, ofSource]
  by_cases h : x.scheduler.lane mm = i ∧ mm.channel = k
  · rw [if_pos h, List.filter_cons_of_pos (by simpa using h), List.filter_nil]
  · rw [if_neg h, List.filter_cons_of_neg (by simpa using h), List.filter_nil]

lemma Sound.push (hx : x.Sound) (ir : GateRequest) (channel : κ) :
    (x.next (.push ir channel)).Sound := by
  have hpush := Scheduler.push_spec hx.notClosed ir channel
  by_cases hfull : x.scheduler.maxBuffered ≤
      (x.scheduler.buckets (x.scheduler.lane ⟨ir, channel⟩)).size
  · simpa only [Merge.next, hpush.1.mpr hfull] using hx
  · simp only [Merge.next, hpush.2 (not_le.mp hfull)]
    set i := x.scheduler.lane ⟨ir, channel⟩
    have hsize : ((x.scheduler.buckets i).push channel ⟨ir, channel⟩).size =
        (x.scheduler.buckets i).size + 1 := rfl
    refine hx.change ((hx.buckets i).push channel ⟨ir, channel⟩) (fun k mm hmm => ?_) ?_ ?_ ?_
    · rw [queue_push] at hmm
      split at hmm
      next hk =>
        rcases mem_append.mp hmm with hmm | hmm
        · exact hk ▸ hx.contents i channel mm hmm
        · rw [List.mem_singleton.mp hmm]
          exact ⟨rfl, hk.symm⟩
      · exact hx.contents i k mm hmm
    · omega
    · intro _
      omega
    · intro j k
      rw [ofSource_append, hx.fifo, append_assoc, Scheduler.queue_update_push]

lemma Sound.pop (hx : x.Sound) : (x.next .pop).Sound := by
  rcases Scheduler.pop_spec hx.buckets hx.total hx.notClosed with
    ⟨-, hpop⟩ | ⟨i, key, mm, rest, -, hkey, hq, hpop⟩
  · simpa only [Merge.next, hpop] using hx
  · have hadvance := (hx.buckets i).advance hkey hq
    have hsize : ((x.scheduler.buckets i).advance key rest).size =
        (x.scheduler.buckets i).size - 1 := by
      rw [hadvance.size, buffered_advance hq, (hx.buckets i).size]
    have hmm := hx.contents i key mm (by rw [hq]; exact mem_cons_self)
    simp only [Merge.next, hpop]
    refine hx.change hadvance (fun k mm' hmm' => ?_) ?_ ?_ ?_
    · rw [queue_advance] at hmm'
      split at hmm'
      next hk =>
        exact hk ▸ hx.contents i key mm' (by rw [hq]; exact mem_cons_of_mem mm hmm')
      · exact hx.contents i k mm' hmm'
    · omega
    · intro h
      have hold := hx.bounded h i
      omega
    · intro j k
      rw [ofSource_append, hx.fifo, append_assoc]
      congr 1
      rcases eq_or_ne j i with rfl | hne
      · rw [update_self, queue_advance]
        rcases eq_or_ne k key with rfl | hk
        · rw [if_pos rfl, if_pos hmm, hq]
          rfl
        · rw [if_neg hk, if_neg fun h => hk (h.2.symm.trans hmm.2)]
          rfl
      · rw [update_of_ne hne, if_neg fun h => hne (h.1.symm.trans hmm.1)]
        rfl

lemma Sound.run (hx : x.Sound) (ops : List (MergeOp κ)) : (x.run ops).Sound := by
  induction ops generalizing x with
  | nil => exact hx
  | cons op ops ih =>
    cases op with
    | push ir channel => exact ih (hx.push ir channel)
    | pop => exact ih hx.pop

end Merge

/-- After every sequence of calls of `Push` and `Pop`, as long as the scheduler is not closed:

* Of every lane and source, the messages that have been pushed are those that have been popped,
  followed by those that are queued; a queued message is in the queue of its lane and source.
* `totalBuffered` is the sum of the sizes, a size is the number of queued messages, and it is at
  most `maxBuffered`.
* The keys of a bucket are the different sources that have messages, and the cursor is zero or
  points at one of them.
* `Push` waits exactly if the lane of the message is full, and otherwise puts the message at the
  end of the queue of its lane and source, and changes no other queue.
* `Pop` waits if all lanes are empty, and otherwise returns a message of the first lane that is
  not. -/
theorem tier_priority_scheduler {κ : Type} [DecidableEq κ] (maxBuffered : ℤ) (tierLabel : String)
    (ops : List (MergeOp κ)) :
    let x := (Merge.initial maxBuffered tierLabel).run ops
    (∀ i k, x.ofSource i k x.pushed = x.ofSource i k x.popped ++ (x.scheduler.buckets i).queue k ∧
      ∀ mm ∈ (x.scheduler.buckets i).queue k, x.scheduler.lane mm = i ∧ mm.channel = k) ∧
    x.scheduler.totalBuffered = ∑ i, (x.scheduler.buckets i).size ∧
    (∀ i, (x.scheduler.buckets i).size = (x.scheduler.buckets i).buffered ∧
      (0 ≤ x.scheduler.maxBuffered →
        (x.scheduler.buckets i).size ≤ x.scheduler.maxBuffered)) ∧
    (∀ i, (x.scheduler.buckets i).keys.Nodup ∧
      (∀ k, k ∈ (x.scheduler.buckets i).keys ↔ (x.scheduler.buckets i).queue k ≠ []) ∧
      ((x.scheduler.buckets i).nextIdx = 0 ∨
        (x.scheduler.buckets i).nextIdx < (x.scheduler.buckets i).keys.length)) ∧
    (∀ ir channel,
      (x.scheduler.push ir channel = none ↔ x.scheduler.maxBuffered ≤
        (x.scheduler.buckets (x.scheduler.lane ⟨ir, channel⟩)).size) ∧
      ((x.scheduler.buckets (x.scheduler.lane ⟨ir, channel⟩)).size < x.scheduler.maxBuffered →
        ∃ s, x.scheduler.push ir channel = some (true, s) ∧ s.closed = false ∧
          ∀ i k, (s.buckets i).queue k = (x.scheduler.buckets i).queue k ++
            if x.scheduler.lane ⟨ir, channel⟩ = i ∧ channel = k then [⟨ir, channel⟩] else [])) ∧
    ((∀ i, (x.scheduler.buckets i).size = 0) ∧ x.scheduler.pop = none ∨
      ∃ mm s, x.scheduler.pop = some (.ok (some mm, s)) ∧
        0 < (x.scheduler.buckets (x.scheduler.lane mm)).size ∧
        ∀ j < x.scheduler.lane mm, (x.scheduler.buckets j).size = 0) := by
  intro x
  have hx : x.Sound := (Merge.sound_initial maxBuffered tierLabel).run ops
  refine ⟨fun i k => ⟨hx.fifo i k, hx.contents i k⟩, hx.total,
    fun i => ⟨(hx.buckets i).size, fun h => hx.bounded h i⟩,
    fun i => ⟨(hx.buckets i).nodup, (hx.buckets i).mem_keys, (hx.buckets i).cursor⟩,
    fun ir channel => ?_, ?_⟩
  · obtain ⟨hwaits, hstores⟩ := Scheduler.push_spec hx.notClosed ir channel
    exact ⟨hwaits, fun hroom => ⟨_, hstores hroom, hx.notClosed,
      Scheduler.queue_update_push ir channel⟩⟩
  rcases Scheduler.pop_spec hx.buckets hx.total hx.notClosed with
    hempty | ⟨i, key, mm, rest, hfirst, hkey, hq, hpop⟩
  · exact .inl hempty
  · obtain ⟨rfl, -⟩ := hx.contents i key mm (by rw [hq]; exact mem_cons_self)
    refine .inr ⟨mm, _, hpop, ?_, hfirst⟩
    have hne : (x.scheduler.buckets (x.scheduler.lane mm)).size ≠ 0 := by
      rw [Ne, (hx.buckets _).size_eq_zero]
      exact ne_nil_of_mem (mem_of_getElem? hkey)
    have hnonneg := (hx.buckets (x.scheduler.lane mm)).size_nonneg
    omega

/-- A request of a tier. -/
def tierRequest (id tier : String) : GateRequest := ⟨id, .empty, Hash.hset .empty "tier" tier⟩

/-- Two batch requests are pushed, then an interactive one, which is popped first. -/
def interactiveFirst : List (MergeOp String) :=
  [.push (tierRequest "b" tierBatch) "q", .push (tierRequest "c" tierBatch) "q",
    .push (tierRequest "i" tierInteractive) "q", .pop]

/-- The two batch requests are left in their order, and with room for two a third one waits, while
there is room for an interactive one. -/
theorem interactiveFirst_scheduled :
    let x := (Merge.initial 2 "tier" : Merge String).run interactiveFirst
    x.popped.map (·.ir.id) = ["i"] ∧
      ((x.scheduler.buckets 5).queue "q").map (·.ir.id) = ["b", "c"] ∧
      x.scheduler.push (tierRequest "d" tierBatch) "q" = none ∧
      ∃ s, x.scheduler.push (tierRequest "j" tierInteractive) "q" = some (true, s) := by
  obtain ⟨-, -, -, -, hpush, -⟩ := tier_priority_scheduler 2 "tier" interactiveFirst
  refine ⟨by decide, by decide, (hpush _ _).1.mpr (by decide), ?_⟩
  obtain ⟨s, hs, -⟩ := (hpush (tierRequest "j" tierInteractive) "q").2 (by decide)
  exact ⟨s, hs⟩

end LlmdAsync.MergePolicy
