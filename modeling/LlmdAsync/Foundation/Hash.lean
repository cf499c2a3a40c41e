import LlmdAsync.Foundation.Table

/-!
# Hashes and sorted sets

The two keyed data types of an in-memory store.  A `Hash` maps fields to values.  A `SortedSet` maps
members to scores and can be read in the order of the scores.  Both are tables, so that every field
and every member occurs once, and both are described by what a lookup returns afterwards.
-/

namespace LlmdAsync

open List Table

/-- Fields with values. -/
abbrev Hash (κ ν : Type) := Table (Prod.fst : κ × ν → κ)

/-- Members with scores. -/
abbrev SortedSet (κ σ : Type) := Hash κ σ

namespace Hash

variable {κ ν : Type} [DecidableEq κ]

/-- The value of a field. -/
def hget (h : Hash κ ν) (k : κ) : Option ν := (h.get? k).map Prod.snd

def hset (h : Hash κ ν) (k : κ) (v : ν) : Hash κ ν := h.put (k, v)

def hdel (h : Hash κ ν) (k : κ) : Hash κ ν := h.erase k

@[simp] lemma hget_empty (k : κ) : hget (.empty : Hash κ ν) k = none := rfl

lemma hget_hset (h : Hash κ ν) (k : κ) (v : ν) (k' : κ) :
    hget (hset h k v) k' = if k' = k then some v else hget h k' := by
  unfold hget hset
  rw [get?_put]
  split <;> rfl

@[simp] lemma hget_hset_self (h : Hash κ ν) (k : κ) (v : ν) : hget (hset h k v) k = some v := by
  rw [hget_hset, if_pos rfl]

lemma hget_hset_of_ne (h : Hash κ ν) {k k' : κ} (v : ν) (hne : k' ≠ k) :
    hget (hset h k v) k' = hget h k' := by
  rw [hget_hset, if_neg hne]

lemma hget_hdel (h : Hash κ ν) (k k' : κ) :
    hget (hdel h k) k' = if k' = k then none else hget h k' := by
  unfold hget hdel
  rw [get?_erase]
  split <;> rfl

@[simp] lemma hget_hdel_self (h : Hash κ ν) (k : κ) : hget (hdel h k) k = none := by
  rw [hget_hdel, if_pos rfl]

lemma hget_hdel_of_ne (h : Hash κ ν) {k k' : κ} (hne : k' ≠ k) :
    hget (hdel h k) k' = hget h k' := by
  rw [hget_hdel, if_neg hne]

lemma hget_of_hdel {h : Hash κ ν} {k k' : κ} {v : ν} (hv : hget (hdel h k) k' = some v) :
    k' ≠ k ∧ hget h k' = some v := by
  rw [hget_hdel] at hv
  split at hv
  · cases hv
  next hne =>
    exact ⟨hne, hv⟩

lemma mem_rows_iff {h : Hash κ ν} {r : κ × ν} : r ∈ h.rows ↔ hget h r.1 = some r.2 := by
  rw [mem_rows, mem_iff_get?, hget, Option.map_eq_some_iff]
  constructor
  · intro hr
    exact ⟨r, hr, rfl⟩
  · rintro ⟨r', hr', hv⟩
    rw [hr', Prod.ext (key_of_get? hr') hv]

lemma hget_foldl_hdel (h : Hash κ ν) (ks : List κ) (k : κ) :
    hget (ks.foldl hdel h) k = if k ∈ ks then none else hget h k := by
  unfold hget
  have hfold : (ks.foldl hdel h) = ks.foldl erase h := rfl
  rw [hfold, get?_foldl_erase]
  split <;> rfl

end Hash

namespace SortedSet

variable {κ σ : Type} [DecidableEq κ] [LinearOrder σ]

/-- The members with scores up to `stop`, if there is a bound, in the order of their scores and no
more than `limit` of them.  Members with equal scores come in the order given by `tie`. -/
def range (z : SortedSet κ σ) (tie : κ → ℕ) (stop : Option σ) (limit : ℕ) : List (κ × σ) :=
  ((z.rows.filter fun r => stop.all fun s => decide (r.2 ≤ s)).insertionSort fun a b =>
    a.2 < b.2 ∨ a.2 = b.2 ∧ tie a.1 ≤ tie b.1).take limit

lemma mem_range {z : SortedSet κ σ} {tie : κ → ℕ} {stop : Option σ} {limit : ℕ} {r : κ × σ}
    (h : r ∈ range z tie stop limit) :
    Hash.hget z r.1 = some r.2 ∧ ∀ s, stop = some s → r.2 ≤ s := by
  have hmem := List.mem_of_mem_take h
  rw [List.mem_insertionSort, List.mem_filter, Option.all_eq_true] at hmem
  exact ⟨Hash.mem_rows_iff.mp hmem.1, fun s hs => of_decide_eq_true (hmem.2 s hs)⟩

omit [DecidableEq κ] in
lemma nodup_range (z : SortedSet κ σ) (tie : κ → ℕ) (stop : Option σ) (limit : ℕ) :
    ((range z tie stop limit).map Prod.fst).Nodup := by
  have hsorted : ((z.rows.filter fun r => stop.all fun s => decide (r.2 ≤ s)).insertionSort
      fun a b => a.2 < b.2 ∨ a.2 = b.2 ∧ tie a.1 ≤ tie b.1).Perm _ := perm_insertionSort _ _
  have hfiltered := z.nodup.sublist ((filter_sublist (l := z.rows)
    (p := fun r => stop.all fun s => decide (r.2 ≤ s))).map Prod.fst)
  exact ((hsorted.map Prod.fst).nodup_iff.mpr hfiltered).sublist
    ((take_sublist limit _).map Prod.fst)

omit [DecidableEq κ] in
lemma pairwise_range (z : SortedSet κ σ) (tie : κ → ℕ) (stop : Option σ) (limit : ℕ) :
    (range z tie stop limit).Pairwise fun a b => a.2 ≤ b.2 := by
  let before : κ × σ → κ × σ → Prop := fun a b => a.2 < b.2 ∨ a.2 = b.2 ∧ tie a.1 ≤ tie b.1
  have htotal : Std.Total before := ⟨fun a b => by
    rcases lt_trichotomy a.2 b.2 with h | h | h
    · exact .inl (.inl h)
    · rcases Nat.le_total (tie a.1) (tie b.1) with h' | h'
      · exact .inl (.inr ⟨h, h'⟩)
      · exact .inr (.inr ⟨h.symm, h'⟩)
    · exact .inr (.inl h)⟩
  have htrans : IsTrans (κ × σ) before := ⟨fun a b c hab hbc => by
    rcases hab with hab | ⟨hab, hab'⟩ <;> rcases hbc with hbc | ⟨hbc, hbc'⟩
    · exact .inl (hab.trans hbc)
    · exact .inl (hbc ▸ hab)
    · exact .inl (hab ▸ hbc)
    · exact .inr ⟨hab.trans hbc, hab'.trans hbc'⟩⟩
  have hsorted := pairwise_insertionSort before
    (z.rows.filter fun r => stop.all fun s => decide (r.2 ≤ s))
  refine (hsorted.sublist (take_sublist limit _)).imp fun hab => ?_
  rcases hab with hab | ⟨hab, -⟩
  · exact hab.le
  · exact hab.le

lemma perm_range {z : SortedSet κ σ} {stop : σ} (tie : κ → ℕ) {limit : ℕ}
    (hstop : ∀ k s, Hash.hget z k = some s → s ≤ stop) (hlimit : z.rows.length ≤ limit) :
    (range z tie (some stop) limit).Perm z.rows := by
  have hall : (z.rows.filter fun r => (some stop).all fun s => decide (r.2 ≤ s)) = z.rows :=
    filter_eq_self.mpr fun r hr =>
      decide_eq_true (hstop r.1 r.2 (Hash.mem_rows_iff.mp hr))
  have hperm := perm_insertionSort
    (fun a b : κ × σ => a.2 < b.2 ∨ a.2 = b.2 ∧ tie a.1 ≤ tie b.1) z.rows
  rw [range, hall, take_of_length_le (hperm.length_eq.trans_le hlimit)]
  exact hperm

lemma range_eq_nil {z : SortedSet κ σ} {stop : σ} (tie : κ → ℕ) (limit : ℕ)
    (hstop : ∀ k s, Hash.hget z k = some s → stop < s) : range z tie (some stop) limit = [] := by
  refine eq_nil_iff_forall_not_mem.mpr fun r hr => ?_
  obtain ⟨hget, hle⟩ := mem_range hr
  exact absurd (hstop r.1 r.2 hget) (not_lt.mpr (hle stop rfl))

end SortedSet

end LlmdAsync
