import LlmdAsync.Foundation.Hash
import LlmdAsync.Foundation.Sums

/-!
# Buckets

The `bucket` of `pkg/async/mergepolicy/tierpriority`: one queue per source, the list of the sources
that have messages, and a cursor into that list.  An index that is out of range, which is a panic,
is an error here.

A pop takes from the first source in the order in which the cursor meets them, which then leaves or
goes to the end.  A source that is pushed to while it has no messages comes behind the sources that
the cursor has not met since it was last at the start of the list, and before those that it has met.
-/

namespace LlmdAsync.MergePolicy

open List Option Hash Table

/-- `bucket`, for sources of type `κ` and messages of type `μ`. -/
structure Bucket (κ μ : Type) where
  queues : Hash κ (List μ)
  keys : List κ
  nextIdx : ℕ
  size : ℤ

/-- `newBucket`. -/
def newBucket {κ μ : Type} : Bucket κ μ := ⟨.empty, [], 0, 0⟩

namespace Bucket

variable {κ μ : Type} [DecidableEq κ]

/-- The messages of a source, oldest first. -/
def queue (b : Bucket κ μ) (key : κ) : List μ := (Hash.hget b.queues key).getD []

/-- `push`. -/
def push (b : Bucket κ μ) (key : κ) (mm : μ) : Bucket κ μ where
  queues := Hash.hset b.queues key (b.queue key ++ [mm])
  keys := if (Hash.hget b.queues key).isSome then b.keys else b.keys ++ [key]
  nextIdx := b.nextIdx
  size := b.size + 1

/-- The end of `pop`, after a message has been taken from the source at the cursor, which has these
messages left. -/
def advance (b : Bucket κ μ) (key : κ) (rest : List μ) : Bucket κ μ :=
  if rest = [] then
    { queues := Hash.hdel b.queues key
      keys := b.keys.eraseIdx b.nextIdx
      nextIdx := if 0 < (b.keys.eraseIdx b.nextIdx).length then
        b.nextIdx % (b.keys.eraseIdx b.nextIdx).length else 0
      size := b.size - 1 }
  else
    { queues := Hash.hset b.queues key rest
      keys := b.keys
      nextIdx := (b.nextIdx + 1) % b.keys.length
      size := b.size - 1 }

/-- `pop`. -/
def pop (b : Bucket κ μ) : Except String (Option μ × Bucket κ μ) :=
  if b.keys = [] then .ok (none, b)
  else
    match b.keys[b.nextIdx]? with
    | none => .error "index out of range"
    | some key =>
      match b.queue key with
      | [] => .error "index out of range"
      | mm :: rest => .ok (some mm, b.advance key rest)

/-- The number of messages in the queues. -/
def buffered (b : Bucket κ μ) : ℤ := b.queues.sumOf fun r => (r.2.length : ℤ)

/-- The sources in the order in which the cursor meets them. -/
def order (b : Bucket κ μ) : List κ := b.keys.drop b.nextIdx ++ b.keys.take b.nextIdx

/-- What holds of every bucket. -/
structure Sound (b : Bucket κ μ) : Prop where
  nodup : b.keys.Nodup
  /-- The keys are the sources that have messages. -/
  mem_keys : ∀ k, k ∈ b.keys ↔ b.queue k ≠ []
  /-- A source without messages has no queue. -/
  queues_ne : ∀ k, Hash.hget b.queues k ≠ some []
  cursor : b.nextIdx = 0 ∨ b.nextIdx < b.keys.length
  size : b.size = b.buffered

variable {b : Bucket κ μ}

lemma sound_newBucket : (newBucket : Bucket κ μ).Sound where
  nodup := nodup_nil
  mem_keys k := by simp [newBucket, queue]
  queues_ne k := nofun
  cursor := .inl rfl
  size := rfl

omit [DecidableEq κ] in
lemma order_perm (b : Bucket κ μ) : b.order.Perm b.keys :=
  perm_append_comm.trans (by rw [take_append_drop])

namespace Sound

lemma isSome_iff (hb : b.Sound) (k : κ) : (hget b.queues k).isSome ↔ k ∈ b.keys := by
  rw [hb.mem_keys, queue]
  have hne := hb.queues_ne k
  cases hq : hget b.queues k with
  | none => simp
  | some q =>
    have hq' : q ≠ [] := fun h => hne (by rw [hq, h])
    simp [hq']

lemma order_eq_cons (hb : b.Sound) (hne : b.keys ≠ []) :
    ∃ k, b.keys[b.nextIdx]? = some k ∧
      b.order = k :: (b.keys.drop (b.nextIdx + 1) ++ b.keys.take b.nextIdx) := by
  have hlt : b.nextIdx < b.keys.length := by
    rcases hb.cursor with h0 | hlt
    · rw [h0]
      exact length_pos_iff.mpr hne
    · exact hlt
  refine ⟨b.keys[b.nextIdx], getElem?_eq_getElem hlt, ?_⟩
  rw [order, drop_eq_getElem_cons hlt, cons_append]

omit [DecidableEq κ] in
lemma buffered_nonneg (t : Hash κ (List μ)) : 0 ≤ t.sumOf fun r => (r.2.length : ℤ) :=
  sum_nonneg fun n hn => by
    obtain ⟨r, -, rfl⟩ := mem_map.mp hn
    exact Int.natCast_nonneg _

lemma size_eq_zero (hb : b.Sound) : b.size = 0 ↔ b.keys = [] := by
  rw [hb.size]
  constructor
  · intro hzero
    by_contra hne
    obtain ⟨k, hk⟩ := exists_mem_of_ne_nil _ hne
    have hsome := (hb.isSome_iff k).mpr hk
    rw [hget, isSome_map] at hsome
    obtain ⟨r, hr⟩ := isSome_iff_exists.mp hsome
    have hsum := sumOf_erase_of_some hr fun r => (r.2.length : ℤ)
    have hrest := buffered_nonneg (b.queues.erase k)
    have hpos : r.2 ≠ [] := fun h => hb.queues_ne k (by rw [hget, hr, ← h]; rfl)
    have hlen := length_pos_iff.mpr hpos
    rw [buffered, hsum] at hzero
    omega
  · intro hnil
    have hrows : b.queues.rows = [] := by
      refine eq_nil_iff_forall_not_mem.mpr fun r hr => ?_
      have hmem := (hb.isSome_iff r.1).mp (by rw [mem_rows_iff.mp hr]; rfl)
      rw [hnil] at hmem
      exact not_mem_nil hmem
    rw [buffered, sumOf, hrows]
    rfl

lemma size_nonneg (hb : b.Sound) : 0 ≤ b.size := by
  rw [hb.size]
  exact buffered_nonneg b.queues

end Sound

/-! ### Push -/

lemma queue_push (b : Bucket κ μ) (key : κ) (mm : μ) (k : κ) :
    (b.push key mm).queue k = if k = key then b.queue key ++ [mm] else b.queue k := by
  simp only [push, queue, hget_hset]
  split <;> rfl

lemma buffered_push (b : Bucket κ μ) (key : κ) (mm : μ) :
    (b.push key mm).buffered = b.buffered + 1 := by
  simp only [buffered, push, hset, sumOf_put]
  unfold queue hget
  cases hq : b.queues.get? key with
  | none =>
    rw [sumOf_erase_of_none hq]
    simp
  | some r =>
    rw [sumOf_erase_of_some hq]
    simp
    omega

lemma Sound.push (hb : b.Sound) (key : κ) (mm : μ) : (b.push key mm).Sound := by
  have hkeys : (b.push key mm).keys = if key ∈ b.keys then b.keys else b.keys ++ [key] := by
    simp only [Bucket.push, hb.isSome_iff]
  refine ⟨?_, fun k => ?_, fun k => ?_, ?_, ?_⟩
  · rw [hkeys]
    split
    · exact hb.nodup
    next hnot =>
      exact nodup_append'.mpr ⟨hb.nodup, nodup_singleton key, by simpa using hnot⟩
  · rw [hkeys, queue_push]
    rcases eq_or_ne k key with rfl | hne
    · simp only [if_true]
      split <;> simp [*]
    · rw [if_neg hne, ← hb.mem_keys]
      split <;> simp [hne]
  · simp only [Bucket.push, hget_hset]
    split
    · simp
    · exact hb.queues_ne k
  · rw [hkeys]
    rcases hb.cursor with h0 | hlt
    · exact .inl h0
    · refine .inr (hlt.trans_le ?_)
      split
      · exact le_refl _
      · simp
  · rw [buffered_push, ← hb.size]
    rfl

lemma Sound.order_push_of_mem (hb : b.Sound) {key : κ} (hkey : key ∈ b.keys) (mm : μ) :
    (b.push key mm).order = b.order := by
  have hsome := (hb.isSome_iff key).mpr hkey
  simp [order, Bucket.push, hsome]

lemma Sound.order_push_of_not_mem (hb : b.Sound) {key : κ} (hkey : key ∉ b.keys) (mm : μ) :
    (b.push key mm).order = b.keys.drop b.nextIdx ++ key :: b.keys.take b.nextIdx := by
  have hnone : ¬ (hget b.queues key).isSome := fun h => hkey ((hb.isSome_iff key).mp h)
  have hle : b.nextIdx ≤ b.keys.length := by
    rcases hb.cursor with h0 | hlt
    · omega
    · exact hlt.le
  simp [order, Bucket.push, hnone, drop_append_of_le_length hle, take_append_of_le_length hle]

/-! ### Pop -/

lemma queue_advance (b : Bucket κ μ) (key : κ) (rest : List μ) (k : κ) :
    (b.advance key rest).queue k = if k = key then rest else b.queue k := by
  unfold advance queue
  split
  next hrest =>
    simp only [hget_hdel]
    split
    · exact hrest.symm
    · rfl
  · simp only [hget_hset]
    split <;> rfl

lemma buffered_advance {key : κ} {mm : μ} {rest : List μ} (hq : b.queue key = mm :: rest) :
    (b.advance key rest).buffered = b.buffered - 1 := by
  unfold queue hget at hq
  cases hget : b.queues.get? key with
  | none =>
    rw [hget] at hq
    cases hq
  | some r =>
    rw [hget] at hq
    have hold := sumOf_erase_of_some hget fun r => (r.2.length : ℤ)
    have hlen : r.2.length = rest.length + 1 := by
      rw [show r.2 = mm :: rest from hq, length_cons]
    unfold buffered advance
    split
    next hrest =>
      simp only [hdel, hold, hlen, hrest, length_nil]
      omega
    · simp only [hset, sumOf_put, hold, hlen]
      omega

lemma order_advance {key : κ} (hkey : b.keys[b.nextIdx]? = some key) (rest : List μ) :
    (b.advance key rest).order = b.keys.drop (b.nextIdx + 1) ++ b.keys.take b.nextIdx ++
      if rest = [] then [] else [key] := by
  obtain ⟨hlt, hget⟩ := List.getElem?_eq_some_iff.mp hkey
  unfold advance order
  split
  · simp only [List.eraseIdx_eq_take_drop_succ, List.append_nil]
    have hlen : (b.keys.take b.nextIdx ++ b.keys.drop (b.nextIdx + 1)).length =
        b.keys.length - 1 := by
      simp only [length_append, length_take, length_drop]
      omega
    rw [hlen]
    rcases Nat.lt_or_ge (b.nextIdx + 1) b.keys.length with hmore | hlast
    · have hmod : b.nextIdx % (b.keys.length - 1) = b.nextIdx := Nat.mod_eq_of_lt (by omega)
      have htake : (b.keys.take b.nextIdx).length = b.nextIdx := by
        rw [length_take]
        omega
      rw [if_pos (by omega), hmod, drop_left' htake, take_left' htake]
    · have hdrop : b.keys.drop (b.nextIdx + 1) = [] := drop_eq_nil_of_le hlast
      have hzero : (if 0 < b.keys.length - 1 then b.nextIdx % (b.keys.length - 1) else 0) = 0 := by
        split
        · rw [show b.nextIdx = b.keys.length - 1 by omega, Nat.mod_self]
        · rfl
      rw [hzero, hdrop, append_nil, drop_zero, take_zero, append_nil, nil_append]
  · dsimp only
    rcases Nat.lt_or_ge (b.nextIdx + 1) b.keys.length with hmore | hlast
    · rw [Nat.mod_eq_of_lt hmore, take_add_one, getElem?_eq_getElem hlt, hget]
      simp
    · have hdrop : b.keys.drop (b.nextIdx + 1) = [] := drop_eq_nil_of_le hlast
      have hall : b.keys.take b.nextIdx ++ [key] = b.keys := by
        rw [← hget, take_append_getElem hlt, take_of_length_le hlast]
      rw [show b.nextIdx + 1 = b.keys.length by omega, Nat.mod_self] at *
      simp [hall]

lemma Sound.mem_keys_advance (hb : b.Sound) {key : κ} (hkey : b.keys[b.nextIdx]? = some key)
    (rest : List μ) (k : κ) :
    k ∈ (b.advance key rest).keys ↔ k ∈ b.keys ∧ (k = key → rest ≠ []) := by
  obtain ⟨key', hkey', horder⟩ := hb.order_eq_cons (ne_nil_of_mem (mem_of_getElem? hkey))
  obtain rfl := some.inj (hkey.symm.trans hkey')
  have hnodup := (order_perm b).nodup_iff.mpr hb.nodup
  rw [← (order_perm b).mem_iff, ← (order_perm (b.advance key rest)).mem_iff,
    order_advance hkey, horder]
  rw [horder, nodup_cons] at hnodup
  generalize b.keys.drop (b.nextIdx + 1) ++ b.keys.take b.nextIdx = tail at hnodup
  rcases eq_or_ne k key with rfl | hne
  · by_cases hrest : rest = []
    · simp [hrest, hnodup.1]
    · simp [hrest]
  · by_cases hrest : rest = []
    · simp [hrest, hne]
    · simp [hrest, hne]

lemma Sound.advance (hb : b.Sound) {key : κ} (hkey : b.keys[b.nextIdx]? = some key) {mm : μ}
    {rest : List μ} (hq : b.queue key = mm :: rest) : (b.advance key rest).Sound := by
  refine ⟨?_, fun k => ?_, fun k => ?_, ?_, ?_⟩
  · unfold Bucket.advance
    split
    · exact hb.nodup.sublist (eraseIdx_sublist _ _)
    · exact hb.nodup
  · rw [hb.mem_keys_advance hkey, queue_advance]
    rcases eq_or_ne k key with rfl | hne
    · simp [hb.mem_keys, hq]
    · simp [hb.mem_keys, hne]
  · unfold Bucket.advance
    split
    · rw [hget_hdel]
      split
      · rintro ⟨⟩
      · exact hb.queues_ne k
    next hrest =>
      rw [hget_hset]
      split
      · simpa using hrest
      · exact hb.queues_ne k
  · unfold Bucket.advance
    split
    · dsimp only
      split
      · exact .inr (Nat.mod_lt _ ‹_›)
      · exact .inl rfl
    · exact .inr (Nat.mod_lt _ (length_pos_of_mem (mem_of_getElem? hkey)))
  · rw [buffered_advance hq, ← hb.size]
    unfold Bucket.advance
    split <;> rfl

lemma Sound.pop (hb : b.Sound) : (b.keys = [] ∧ b.pop = .ok (none, b)) ∨
    ∃ key mm rest, b.keys[b.nextIdx]? = some key ∧ b.queue key = mm :: rest ∧
      b.pop = .ok (some mm, b.advance key rest) := by
  by_cases hne : b.keys = []
  · exact .inl ⟨hne, by rw [Bucket.pop, if_pos hne]⟩
  · obtain ⟨key, hkey, -⟩ := hb.order_eq_cons hne
    have hq := (hb.mem_keys key).mp (mem_of_getElem? hkey)
    obtain ⟨mm, rest, hq⟩ := exists_cons_of_ne_nil hq
    exact .inr ⟨key, mm, rest, hkey, hq, by rw [Bucket.pop, if_neg hne, hkey]; simp only [hq]⟩

end Bucket

end LlmdAsync.MergePolicy
