import LlmdAsync.MergePolicy.Bucket

/-!
# Round-robin within a lane

A source that has messages should be popped once in as many pops as there are sources.  This can
fail: while it waits behind the cursor, another source can be popped, run out of messages, be pushed
to again and be popped again, because `push` puts it at the end of the list.  Two sources that do
this in turn keep a third one waiting for ever.

As long as no source gets ahead in this way, the pops of the other sources are pops of different
sources.
-/

namespace LlmdAsync.MergePolicy

open List Bucket

/-- The operations on a bucket. -/
inductive BucketOp (κ μ : Type) where
  | push (key : κ) (mm : μ)
  | pop

namespace BucketOp

variable {κ μ : Type}

def isPop : BucketOp κ μ → Bool
  | .push .. => false
  | .pop => true

def pushed : BucketOp κ μ → Option κ
  | .push key _ => some key
  | .pop => none

end BucketOp

namespace Bucket

variable {κ μ : Type} [DecidableEq κ]

def next (b : Bucket κ μ) : BucketOp κ μ → Bucket κ μ
  | .push key mm => b.push key mm
  | .pop =>
    match b.pop with
    | .ok (_, b') => b'
    | .error _ => b

def run (b : Bucket κ μ) (ops : List (BucketOp κ μ)) : Bucket κ μ := ops.foldl next b

/-- The source that an operation pops from. -/
def popped (b : Bucket κ μ) : BucketOp κ μ → Option κ
  | .push .. => none
  | .pop => b.keys[b.nextIdx]?

/-- The sources that operations pop from, in their order. -/
def poppedIn (b : Bucket κ μ) : List (BucketOp κ μ) → List κ
  | [] => []
  | op :: ops => (b.popped op).toList ++ (b.next op).poppedIn ops

/-- An operation does not bring a source that has been popped ahead of the source `k`, which waits
behind the cursor. -/
def keepsTurn (k : κ) (done : List κ) (b : Bucket κ μ) : BucketOp κ μ → Bool
  | .push key _ => key ∈ b.keys ∨ key ∉ done ∨ b.nextIdx ≤ b.keys.idxOf k
  | .pop => true

/-- No operation does so, where the sources in `done` have been popped before. -/
def keepsTurns (k : κ) : List κ → Bucket κ μ → List (BucketOp κ μ) → Bool
  | _, _, [] => true
  | done, b, op :: ops => b.keepsTurn k done op &&
      keepsTurns k (done ++ (b.popped op).toList) (b.next op) ops

/-- The sources that the cursor meets before the source `k`. -/
def ahead (b : Bucket κ μ) (k : κ) : List κ := b.order.takeWhile fun x => decide (x ≠ k)

variable {b : Bucket κ μ} {k : κ}

lemma Sound.next (hb : b.Sound) (op : BucketOp κ μ) : (b.next op).Sound := by
  cases op with
  | push key mm => exact hb.push key mm
  | pop =>
    rcases hb.pop with ⟨-, hpop⟩ | ⟨key, mm, rest, hkey, hq, hpop⟩
    · simpa only [Bucket.next, hpop] using hb
    · simpa only [Bucket.next, hpop] using hb.advance hkey hq

lemma Sound.run (hb : b.Sound) (ops : List (BucketOp κ μ)) : (b.run ops).Sound := by
  induction ops generalizing b with
  | nil => exact hb
  | cons op ops ih => exact ih (hb.next op)

lemma Sound.mem_keys_next (hb : b.Sound) {op : BucketOp κ μ} {x : κ} (hx : x ∈ (b.next op).keys) :
    x ∈ b.keys ∨ op.pushed = some x := by
  cases op with
  | push key mm =>
    simp only [Bucket.next, Bucket.push] at hx
    split at hx
    · exact .inl hx
    · rcases List.mem_append.mp hx with hx | hx
      · exact .inl hx
      · exact .inr (congrArg some (List.mem_singleton.mp hx).symm)
  | pop =>
    rcases hb.pop with ⟨-, hpop⟩ | ⟨key, mm, rest, hkey, hq, hpop⟩
    · rw [Bucket.next, hpop] at hx
      exact .inl hx
    · rw [Bucket.next, hpop] at hx
      exact .inl ((hb.mem_keys_advance hkey rest x).mp hx).1

lemma takeWhile_append_of_mem {l : List κ} (hk : k ∈ l) (l' : List κ) :
    (l ++ l').takeWhile (fun x => decide (x ≠ k)) = l.takeWhile fun x => decide (x ≠ k) := by
  induction l with
  | nil => exact absurd hk not_mem_nil
  | cons x l ih =>
    rcases eq_or_ne x k with rfl | hne
    · simp
    · have hk' : k ∈ l := (mem_cons.mp hk).resolve_left hne.symm
      rw [cons_append, takeWhile_cons_of_pos (by simpa using hne),
        takeWhile_cons_of_pos (by simpa using hne), ih hk']

lemma Sound.mem_ahead_push (hb : b.Sound) (hk : k ∈ b.keys) {key : κ} {mm : μ} {x : κ}
    (hx : x ∈ (b.push key mm).ahead k) :
    x ∈ b.ahead k ∨ (x = key ∧ key ∉ b.keys ∧ b.keys.idxOf k < b.nextIdx) := by
  by_cases hkey : key ∈ b.keys
  · rw [ahead, hb.order_push_of_mem hkey] at hx
    exact .inl hx
  · rw [ahead, hb.order_push_of_not_mem hkey] at hx
    by_cases hdrop : k ∈ b.keys.drop b.nextIdx
    · rw [takeWhile_append_of_mem hdrop] at hx
      rw [ahead, order, takeWhile_append_of_mem hdrop]
      exact .inl hx
    · have hpassed : b.keys.idxOf k < b.nextIdx := by
        by_contra hle
        refine hdrop (mem_drop_iff_getElem.mpr ⟨b.keys.idxOf k - b.nextIdx, ?_, ?_⟩)
        · have hlt := idxOf_lt_length_of_mem hk
          omega
        · have hsum : b.nextIdx + (b.keys.idxOf k - b.nextIdx) = b.keys.idxOf k := by omega
          simp [hsum]
      have hall : ∀ y ∈ b.keys.drop b.nextIdx, decide (y ≠ k) = true := fun y hy =>
        decide_eq_true fun heq => hdrop (heq ▸ hy)
      rw [takeWhile_append_of_pos hall] at hx
      rw [ahead, order, takeWhile_append_of_pos hall]
      have hne : key ≠ k := fun heq => hkey (heq ▸ hk)
      rw [takeWhile_cons_of_pos (by simpa using hne)] at hx
      rcases mem_append.mp hx with hx | hx
      · exact .inl (mem_append_left _ hx)
      · rcases mem_cons.mp hx with rfl | hx
        · exact .inr ⟨rfl, hkey, hpassed⟩
        · exact .inl (mem_append_right _ hx)

lemma Sound.ahead_pop (hb : b.Sound) (hk : k ∈ b.keys) (hpopped : b.popped .pop ≠ some k) :
    ∃ key, b.popped .pop = some key ∧ b.ahead k = key :: (b.next .pop).ahead k ∧
      k ∈ (b.next .pop).keys := by
  rcases hb.pop with ⟨hnil, -⟩ | ⟨key, mm, rest, hkey, hq, hpop⟩
  · rw [hnil] at hk
    exact absurd hk not_mem_nil
  · have hne : key ≠ k := fun heq => hpopped (by rw [popped, hkey, heq])
    obtain ⟨key', hkey', horder⟩ := hb.order_eq_cons (ne_nil_of_mem hk)
    obtain rfl := Option.some.inj (hkey.symm.trans hkey')
    have htail : k ∈ b.keys.drop (b.nextIdx + 1) ++ b.keys.take b.nextIdx := by
      have hmem := (order_perm b).mem_iff.mpr hk
      rw [horder] at hmem
      exact (mem_cons.mp hmem).resolve_left hne.symm
    have hnext : b.next .pop = b.advance key rest := by
      rw [Bucket.next, hpop]
    refine ⟨key, hkey, ?_, ?_⟩
    · rw [hnext, ahead, ahead, order_advance hkey, horder, takeWhile_append_of_mem htail,
        takeWhile_cons_of_pos (by simpa using hne)]
    · rw [hnext, hb.mem_keys_advance hkey]
      exact ⟨hk, fun heq => absurd heq.symm hne⟩

lemma Sound.poppedIn_nodup (hb : b.Sound) (hk : k ∈ b.keys) {done : List κ} (hdone : done.Nodup)
    (hahead : ∀ x ∈ done, x ∉ b.ahead k) {ops : List (BucketOp κ μ)}
    (hturns : keepsTurns k done b ops = true) (hnot : k ∉ b.poppedIn ops) :
    (done ++ b.poppedIn ops).Nodup ∧ (b.poppedIn ops).length = ops.countP BucketOp.isPop ∧
      ∀ x ∈ b.poppedIn ops, x ∈ b.keys ∨ x ∈ ops.filterMap BucketOp.pushed := by
  induction ops generalizing b done with
  | nil => exact ⟨by simpa [poppedIn] using hdone, rfl, fun x hx => absurd hx not_mem_nil⟩
  | cons op ops ih =>
    rw [keepsTurns, Bool.and_eq_true] at hturns
    rw [poppedIn, mem_append, not_or] at hnot
    have hnext := hb.next op
    cases op with
    | push key mm =>
      have hk' : k ∈ (b.next (.push key mm)).keys := by
        rw [hnext.mem_keys, Bucket.next, queue_push]
        split
        · simp
        · exact (hb.mem_keys k).mp hk
      have hahead' : ∀ x ∈ done, x ∉ (b.next (.push key mm)).ahead k := by
        intro x hx hmem
        rcases hb.mem_ahead_push hk hmem with hold | ⟨rfl, hkey, hpassed⟩
        · exact hahead x hx hold
        · have hturn := of_decide_eq_true hturns.1
          rcases hturn with hturn | hturn | hturn
          · exact hkey hturn
          · exact hturn hx
          · omega
      obtain ⟨hnodup, hlen, hsources⟩ := ih hnext hk' hdone hahead'
        (by simpa [popped] using hturns.2) hnot.2
      have hskip : b.poppedIn (.push key mm :: ops) = (b.next (.push key mm)).poppedIn ops := rfl
      refine ⟨hskip ▸ hnodup, hskip ▸ hlen, fun x hx => ?_⟩
      rcases hsources x (hskip ▸ hx) with hkeys | hpushed
      · rcases hb.mem_keys_next hkeys with hold | hnew
        · exact .inl hold
        · exact .inr (mem_filterMap.mpr ⟨_, mem_cons_self, hnew⟩)
      · exact .inr (mem_cons_of_mem key hpushed)
    | pop =>
      have hpopped : b.popped .pop ≠ some k := fun heq => hnot.1 (by simp [heq])
      obtain ⟨key, hkey, hcons, hk'⟩ := hb.ahead_pop hk hpopped
      have hfresh : key ∉ done := fun hmem =>
        hahead key hmem (by rw [hcons]; exact mem_cons_self)
      have hnodup : (b.ahead k).Nodup :=
        ((order_perm b).nodup_iff.mpr hb.nodup).sublist (takeWhile_sublist _)
      rw [hcons, nodup_cons] at hnodup
      have hdone' : (done ++ [key]).Nodup :=
        nodup_append'.mpr ⟨hdone, nodup_singleton key, by simpa using hfresh⟩
      have hahead' : ∀ x ∈ done ++ [key], x ∉ (b.next .pop).ahead k := by
        intro x hx hmem
        rcases mem_append.mp hx with hx | hx
        · exact hahead x hx (by rw [hcons]; exact mem_cons_of_mem key hmem)
        · exact hnodup.1 (mem_singleton.mp hx ▸ hmem)
      obtain ⟨hnodup', hlen, hsources⟩ := ih hnext hk' hdone' hahead'
        (by simpa [hkey] using hturns.2) hnot.2
      have hcut : b.poppedIn (.pop :: ops) = key :: (b.next .pop).poppedIn ops := by
        simp [poppedIn, hkey]
      refine ⟨by simpa [hcut] using hnodup', ?_, fun x hx => ?_⟩
      · rw [hcut, length_cons, hlen]
        exact (countP_cons_of_pos rfl).symm
      · rw [hcut] at hx
        rcases mem_cons.mp hx with rfl | hx
        · exact .inl (mem_of_getElem? hkey)
        · rcases hsources x hx with hkeys | hpushed
          · rcases hb.mem_keys_next hkeys with hold | hnew
            · exact .inl hold
            · cases hnew
          · exact .inr hpushed

lemma Sound.mem_keys_run (hb : b.Sound) {ops : List (BucketOp κ μ)} {x : κ}
    (hx : x ∈ (b.run ops).keys) : x ∈ b.keys ∨ x ∈ ops.filterMap BucketOp.pushed := by
  induction ops generalizing b with
  | nil => exact .inl hx
  | cons op ops ih =>
    rcases ih (hb.next op) hx with hkeys | hpushed
    · rcases hb.mem_keys_next hkeys with hold | hnew
      · exact .inl hold
      · exact .inr (mem_filterMap.mpr ⟨op, mem_cons_self, hnew⟩)
    · obtain ⟨op', hop', heq⟩ := mem_filterMap.mp hpushed
      exact .inr (mem_filterMap.mpr ⟨op', mem_cons_of_mem op hop', heq⟩)

end Bucket

/-- A source that has messages is popped once in as many pops as there are sources, if no source
that has been popped in the meantime gets ahead of it again. -/
theorem lane_round_robin {κ μ : Type} [DecidableEq κ] {before stretch : List (BucketOp κ μ)} {k : κ}
    (hk : k ∈ ((newBucket : Bucket κ μ).run before).keys)
    (hturns : Bucket.keepsTurns k [] (newBucket.run before) stretch = true)
    (hpops : ((before ++ stretch).filterMap BucketOp.pushed).toFinset.card ≤
      stretch.countP BucketOp.isPop) :
    k ∈ (newBucket.run before).poppedIn stretch := by
  by_contra hnot
  have hb : ((newBucket : Bucket κ μ).run before).Sound := sound_newBucket.run before
  obtain ⟨hnodup, hlen, hsources⟩ := hb.poppedIn_nodup hk nodup_nil
    (fun x hx => absurd hx not_mem_nil) hturns hnot
  have hkeys : ∀ x ∈ ((newBucket : Bucket κ μ).run before).keys,
      x ∈ before.filterMap BucketOp.pushed := fun x hx =>
    (sound_newBucket.mem_keys_run hx).resolve_left not_mem_nil
  -- The source that waits and those that are popped are different sources.
  have hsub : (k :: (newBucket.run before).poppedIn stretch).toFinset ⊆
      ((before ++ stretch).filterMap BucketOp.pushed).toFinset := by
    intro x hx
    rw [mem_toFinset, filterMap_append, mem_append]
    rcases mem_cons.mp (mem_toFinset.mp hx) with rfl | hx
    · exact .inl (hkeys x hk)
    · rcases hsources x hx with hx | hx
      · exact .inl (hkeys x hx)
      · exact .inr hx
  have hcard := Finset.card_le_card hsub
  rw [toFinset_card_of_nodup (nodup_cons.mpr ⟨hnot, hnodup⟩), length_cons, hlen]
    at hcard
  omega

/-- Three sources with messages, and the first one is popped. -/
def threeSources : List (BucketOp String ℕ) :=
  [.push "s" 1, .push "s" 2, .push "a" 3, .push "b" 4, .pop]

/-- The sources are popped in turn, and pushed to where that brings none of them ahead. -/
def inTurn : List (BucketOp String ℕ) := [.pop, .push "s" 5, .pop, .push "b" 6, .pop]

/-- The first source is the third to be popped. -/
theorem threeSources_in_turn :
    let b := (newBucket : Bucket String ℕ).run threeSources
    "s" ∈ b.poppedIn inTurn ∧ b.poppedIn inTurn = ["a", "b", "s"] :=
  ⟨lane_round_robin (by decide) (by decide) (by decide), by decide⟩

/-- The other two sources are pushed to again after they have been popped. -/
def overtaking : List (BucketOp String ℕ) := [.pop, .push "a" 5, .pop, .push "b" 6, .pop]

/-- The first source has messages all the time and is not popped in three pops. -/
theorem overtaking_starves :
    let b := (newBucket : Bucket String ℕ).run threeSources
    ((threeSources ++ overtaking).filterMap BucketOp.pushed).toFinset.card = 3 ∧
      overtaking.countP BucketOp.isPop = 3 ∧
      (∀ n ≤ overtaking.length, "s" ∈ (b.run (overtaking.take n)).keys) ∧
      b.poppedIn overtaking = ["a", "b", "a"] := by
  decide

end LlmdAsync.MergePolicy
