import Mathlib

/-!
# Tables with a primary key

A `Table key` is a list of rows in which the function `key` takes every value at most once.  The
well-formedness proof is a field, so that no operation can produce two rows with one key.

The operations are the ones a relational statement needs: `get?` (lookup by key), `map` (an update
that keeps every key), `filter` (a delete), `insertAll` (an insert that fails as a whole on a key
conflict) and `insertMissing` (an insert that ignores conflicting rows).  With `put` and `erase` a
table is also a finite map.  Each operation is described by what `get?` returns afterwards.
-/

namespace LlmdAsync

open List Option

/-- A list of rows with pairwise distinct primary keys. -/
structure Table {κ ρ : Type*} (key : ρ → κ) where
  /-- The rows in storage order. -/
  rows : List ρ
  /-- No two rows share a key. -/
  nodup : (rows.map key).Nodup

namespace Table

variable {κ ρ : Type*} {key : ρ → κ}

def empty : Table key := ⟨[], by simp⟩

instance : Membership ρ (Table key) := ⟨fun t r => r ∈ t.rows⟩

variable {t : Table key} {r : ρ}

@[simp] lemma mem_rows : r ∈ t.rows ↔ r ∈ t := Iff.rfl

@[simp] lemma mem_mk {rows : List ρ} {h : (rows.map key).Nodup} :
    r ∈ (⟨rows, h⟩ : Table key) ↔ r ∈ rows := Iff.rfl

@[simp] lemma not_mem_empty : r ∉ (empty : Table key) := not_mem_nil

lemma eq_of_key_eq {r' : ρ} (hr : r ∈ t) (hr' : r' ∈ t) (hk : key r = key r') : r = r' :=
  inj_on_of_nodup_map t.nodup hr hr' hk

/-- An update: every row is replaced by its image under `f`, which keeps the keys. -/
def map (t : Table key) (f : ρ → ρ) (hf : ∀ r, key (f r) = key r) : Table key :=
  ⟨t.rows.map f, by
    have : key ∘ f = key := funext hf
    rw [List.map_map, this]
    exact t.nodup⟩

lemma mem_map {f : ρ → ρ} {hf : ∀ r, key (f r) = key r} :
    r ∈ t.map f hf ↔ ∃ r₀ ∈ t, f r₀ = r := List.mem_map

/-- A delete: only the rows satisfying `p` stay. -/
def filter (t : Table key) (p : ρ → Bool) : Table key :=
  ⟨t.rows.filter p, t.nodup.sublist (List.filter_sublist.map key)⟩

@[simp] lemma mem_filter {p : ρ → Bool} :
    r ∈ t.filter p ↔ r ∈ t ∧ p r = true := List.mem_filter

lemma ext_rows {t' : Table key} (h : t.rows = t'.rows) : t = t' := by
  cases t
  cases t'
  cases h
  rfl

lemma filter_true (t : Table key) : t.filter (fun _ => true) = t :=
  ext_rows (List.filter_true t.rows)

lemma filter_filter (t : Table key) (p q : ρ → Bool) :
    (t.filter p).filter q = t.filter fun r => q r && p r :=
  ext_rows (List.filter_filter ..)

lemma filter_congr {p q : ρ → Bool} (h : ∀ r ∈ t, p r = q r) :
    t.filter p = t.filter q :=
  ext_rows (List.filter_congr h)

section Lookup

variable [DecidableEq κ]

variable {r : ρ} {t : Table key} {k : κ} {new : List ρ}

lemma filter_key_eq_singleton {l : List ρ} (h : (l.map key).Nodup) (hr : r ∈ l) :
    l.filter (fun r' => decide (key r' = key r)) = [r] := by
  induction l with
  | nil => cases hr
  | cons a l ih =>
    rw [map_cons, nodup_cons] at h
    rcases mem_cons.mp hr with rfl | hmem
    · rw [filter_cons_of_pos (by simp), filter_eq_nil_iff.mpr]
      intro b hb
      rw [decide_eq_true_eq]
      intro heq
      exact h.1 (heq ▸ mem_map_of_mem hb)
    · rw [filter_cons_of_neg, ih h.2 hmem]
      rw [decide_eq_true_eq]
      intro heq
      exact h.1 (heq ▸ mem_map_of_mem hmem)

/-- The row with the given key. -/
def get? (t : Table key) (k : κ) : Option ρ := t.rows.find? fun r => decide (key r = k)

lemma get?_eq_some : t.get? k = some r ↔ r ∈ t ∧ key r = k := by
  constructor
  · intro h
    exact ⟨mem_of_find?_eq_some h, by simpa using find?_some h⟩
  · rintro ⟨hr, rfl⟩
    cases hf : t.get? (key r) with
    | none =>
      have := find?_eq_none.mp hf r hr
      simp at this
    | some r' =>
      have hr' : r' ∈ t := mem_of_find?_eq_some hf
      have hk : key r' = key r := by simpa using find?_some hf
      rw [eq_of_key_eq hr' hr hk]

lemma get?_eq_none : t.get? k = none ↔ ∀ r ∈ t, key r ≠ k := by
  simp [get?, find?_eq_none]

lemma mem_iff_get? : r ∈ t ↔ t.get? (key r) = some r := by
  rw [get?_eq_some]
  simp

lemma key_of_get? (h : t.get? k = some r) : key r = k :=
  (get?_eq_some.mp h).2

lemma mem_of_get? (h : t.get? k = some r) : r ∈ t :=
  (get?_eq_some.mp h).1

@[simp] lemma get?_map (t : Table key) (f : ρ → ρ) (hf : ∀ r, key (f r) = key r) (k : κ) :
    (t.map f hf).get? k = (t.get? k).map f := by
  cases h : t.get? k with
  | none =>
    rw [get?_eq_none] at h
    rw [map_none, get?_eq_none]
    intro r hr
    obtain ⟨r₀, hr₀, rfl⟩ := mem_map.mp hr
    rw [hf]
    exact h r₀ hr₀
  | some r =>
    obtain ⟨hr, rfl⟩ := get?_eq_some.mp h
    rw [map_some, get?_eq_some]
    exact ⟨mem_map.mpr ⟨r, hr, rfl⟩, hf r⟩

@[simp] lemma get?_filter (t : Table key) (p : ρ → Bool) (k : κ) :
    (t.filter p).get? k = (t.get? k).filter p := by
  cases h : t.get? k with
  | none =>
    rw [get?_eq_none] at h
    rw [filter_none, get?_eq_none]
    intro r hr
    exact h r (mem_filter.mp hr).1
  | some r =>
    obtain ⟨hr, rfl⟩ := get?_eq_some.mp h
    by_cases hp : p r = true
    · rw [filter_some_pos hp, get?_eq_some]
      exact ⟨mem_filter.mpr ⟨hr, hp⟩, rfl⟩
    · rw [filter_some_neg (Bool.eq_false_iff.mpr hp), get?_eq_none]
      intro r' hr' hk
      obtain ⟨hr', hp'⟩ := mem_filter.mp hr'
      rw [eq_of_key_eq hr' hr hk] at hp'
      exact hp hp'

lemma filter_key_rows (t : Table key) (k : κ) :
    t.rows.filter (fun r => decide (key r = k)) = (t.get? k).toList := by
  cases h : t.get? k with
  | none =>
    rw [toList_none, filter_eq_nil_iff]
    intro r hr
    rw [decide_eq_true_eq]
    exact get?_eq_none.mp h r hr
  | some r =>
    obtain ⟨hr, rfl⟩ := get?_eq_some.mp h
    rw [toList_some, filter_key_eq_singleton t.nodup hr]

lemma filter_map_filter_rows {ε : Type*} (t : Table key) (p : ρ → Bool) (f : ρ → ε)
    {g : ε → Option κ} (hg : ∀ r, g (f r) = some (key r)) (k : κ) :
    ((t.rows.filter p).map f).filter (fun e => decide (g e = some k)) =
      (((t.get? k).filter p).map f).toList := by
  have hcomp : (fun e => decide (g e = some k)) ∘ f = fun r => decide (key r = k) := by
    funext r
    simp [hg]
  rw [List.filter_map, hcomp, List.filter_filter]
  simp only [Bool.and_comm]
  rw [← List.filter_filter, filter_key_rows]
  cases t.get? k with
  | none => rfl
  | some r =>
    cases hp : p r with
    | false => rw [Option.filter_some_neg hp]; simp [hp]
    | true => rw [Option.filter_some_pos hp]; simp [hp]

/-! ### Inserts -/

/-- Insert all the rows, or fail if a key would occur twice. -/
def insertAll (t : Table key) (new : List ρ) : Option (Table key) :=
  if h : ((t.rows ++ new).map key).Nodup then some ⟨t.rows ++ new, h⟩ else none

lemma insertAll_eq_some {t' : Table key} (h : t.insertAll new = some t') :
    t'.rows = t.rows ++ new ∧ (new.map key).Nodup ∧ ∀ r ∈ new, t.get? (key r) = none := by
  unfold insertAll at h
  split at h
  next hnd =>
    cases h
    rw [map_append, nodup_append] at hnd
    refine ⟨rfl, hnd.2.1, ?_⟩
    intro r hr
    rw [get?_eq_none]
    intro r' hr' hk
    exact hnd.2.2 _ (mem_map_of_mem hr') _ (mem_map_of_mem hr) hk
  · cases h

/-- Insert a row if its key is free. -/
def insertNew (t : Table key) (r : ρ) : Table key :=
  if h : key r ∈ t.rows.map key then t
  else ⟨t.rows ++ [r], by
    rw [List.map_append, List.nodup_append]
    refine ⟨t.nodup, by simp, ?_⟩
    rintro k hk k' hk' rfl
    exact h (List.mem_singleton.mp hk' ▸ hk)⟩

lemma get?_insertNew (t : Table key) (r : ρ) (k : κ) :
    (t.insertNew r).get? k = (t.get? k).or (if key r = k then some r else none) := by
  unfold insertNew
  split
  next hmem =>
    obtain ⟨r', hr', hk'⟩ := List.mem_map.mp hmem
    split
    next hk =>
      rw [(get?_eq_some (k := k)).mpr ⟨hr', hk'.trans hk⟩, some_or]
    · rw [or_none]
  · simp only [get?, find?_append, find?_singleton, decide_eq_true_eq]

/-- Insert the rows whose key is free, and ignore the others. -/
def insertMissing (t : Table key) (new : List ρ) : Table key := new.foldl insertNew t

lemma get?_insertMissing_of_some
    (h : t.get? k = some r) : (t.insertMissing new).get? k = some r := by
  induction new generalizing t with
  | nil => exact h
  | cons a new ih =>
    refine ih ?_
    rw [get?_insertNew, h, some_or]

lemma get?_insertMissing_cases (h : (t.insertMissing new).get? k = some r) :
    t.get? k = some r ∨ (t.get? k = none ∧ r ∈ new ∧ key r = k) := by
  induction new generalizing t with
  | nil => exact .inl h
  | cons a new ih =>
    rcases ih h with h | ⟨hnone, hmem, hk⟩
    · rw [get?_insertNew] at h
      cases ht : t.get? k with
      | some r' => left; simpa [ht] using h
      | none =>
        right
        rw [ht, none_or] at h
        split at h
        next hk =>
          cases h
          exact ⟨rfl, mem_cons_self, hk⟩
        · cases h
    · rw [get?_insertNew] at hnone
      exact .inr ⟨(or_eq_none_iff.mp hnone).1, mem_cons_of_mem _ hmem, hk⟩

lemma exists_get?_insertMissing (hr : r ∈ new) :
    ∃ r', (t.insertMissing new).get? (key r) = some r' := by
  induction new generalizing t with
  | nil => cases hr
  | cons a new ih =>
    rcases mem_cons.mp hr with rfl | hr
    · have hsome : ∃ r', (t.insertNew r).get? (key r) = some r' := by
        rw [get?_insertNew, if_pos rfl]
        cases t.get? (key r) with
        | none => exact ⟨r, rfl⟩
        | some r' => exact ⟨r', rfl⟩
      obtain ⟨r', hr'⟩ := hsome
      refine ⟨r', ?_⟩
      show ((t.insertNew r).insertMissing new).get? (key r) = some r'
      exact get?_insertMissing_of_some hr'
    · exact ih hr

/-! ### Tables as maps -/

/-- Remove the row with the given key. -/
def erase (t : Table key) (k : κ) : Table key := t.filter fun r => decide (key r ≠ k)

/-- Insert a row in the place of the one with its key, if there is one. -/
def put (t : Table key) (r : ρ) : Table key :=
  ⟨r :: (t.erase (key r)).rows, by
    rw [List.map_cons, List.nodup_cons]
    refine ⟨?_, (t.erase (key r)).nodup⟩
    intro hmem
    obtain ⟨r', hr', hk⟩ := List.mem_map.mp hmem
    exact of_decide_eq_true (List.mem_filter.mp hr').2 hk⟩

lemma get?_erase (t : Table key) (k k' : κ) :
    (t.erase k).get? k' = if k' = k then none else t.get? k' := by
  unfold erase
  rw [get?_filter]
  cases h : t.get? k' with
  | none => simp
  | some r =>
    have hk : key r = k' := key_of_get? h
    by_cases hkk : k' = k
    · rw [if_pos hkk, filter_some_neg (by simp [hk, hkk])]
    · rw [if_neg hkk, filter_some_pos (by simp [hk, hkk])]

@[simp] lemma get?_erase_self (t : Table key) (k : κ) : (t.erase k).get? k = none := by
  rw [get?_erase, if_pos rfl]

lemma get?_erase_of_ne (t : Table key) {k' : κ} (h : k' ≠ k) :
    (t.erase k).get? k' = t.get? k' := by
  rw [get?_erase, if_neg h]

/-- A row is erased if it passes a test. -/
lemma get?_erase_if {t t' : Table key} (P : ρ → Prop) [DecidablePred P]
    (herase : ∀ r, t.get? k = some r → P r → t' = t.erase k)
    (hkeep : (∀ r, t.get? k = some r → ¬P r) → t' = t) (k' : κ) :
    t'.get? k' = (t.get? k').filter fun r => decide ¬(k' = k ∧ P r) := by
  by_cases hany : ∃ r, t.get? k = some r ∧ P r
  · obtain ⟨r, hr, hP⟩ := hany
    rw [herase r hr hP, get?_erase]
    by_cases hk : k' = k
    · simp [hk, hr, hP, filter_some]
    · cases t.get? k' <;> simp [hk, filter_some]
  · have hnone : ∀ r, t.get? k = some r → ¬P r := fun r hr hP => hany ⟨r, hr, hP⟩
    rw [hkeep hnone]
    cases hr : t.get? k' with
    | none => rfl
    | some r =>
      have hpass : ¬(k' = k ∧ P r) := by
        rintro ⟨rfl, hP⟩
        exact hnone r hr hP
      rw [filter_some, decide_eq_true hpass, if_pos rfl]

lemma get?_put (t : Table key) (r : ρ) (k : κ) :
    (t.put r).get? k = if k = key r then some r else t.get? k := by
  by_cases h : k = key r
  · subst h
    rw [if_pos rfl, get?_eq_some]
    exact ⟨mem_cons_self, rfl⟩
  · rw [if_neg h, ← get?_erase_of_ne t h]
    show find? _ (r :: (t.erase (key r)).rows) = find? _ _
    rw [find?_cons_of_neg (by simpa using fun h' => h h'.symm)]

@[simp] lemma get?_put_self (t : Table key) (r : ρ) : (t.put r).get? (key r) = some r := by
  rw [get?_put, if_pos rfl]

lemma get?_put_of_ne (t : Table key) (h : k ≠ key r) :
    (t.put r).get? k = t.get? k := by
  rw [get?_put, if_neg h]

lemma get?_foldl_put_of_not_mem {α : Type*} {f : α → ρ} {l : List α}
    (h : k ∉ l.map fun a => key (f a)) (t : Table key) :
    (l.foldl (fun t a => t.put (f a)) t).get? k = t.get? k := by
  induction l generalizing t with
  | nil => rfl
  | cons a l ih =>
    rw [map_cons, mem_cons, not_or] at h
    rw [foldl_cons, ih h.2, get?_put_of_ne t h.1]

lemma get?_foldl_put_of_mem {α : Type*} {f : α → ρ} {l : List α}
    (hnd : (l.map fun a => key (f a)).Nodup) {a : α} (ha : a ∈ l) (t : Table key) :
    (l.foldl (fun t a => t.put (f a)) t).get? (key (f a)) = some (f a) := by
  induction l generalizing t with
  | nil => cases ha
  | cons b l ih =>
    rw [map_cons, nodup_cons] at hnd
    rw [foldl_cons]
    rcases mem_cons.mp ha with rfl | ha
    · rw [get?_foldl_put_of_not_mem hnd.1, get?_put_self]
    · exact ih hnd.2 ha _

lemma get?_foldl_erase (l : List κ) (t : Table key) (k : κ) :
    (l.foldl erase t).get? k = if k ∈ l then none else t.get? k := by
  induction l generalizing t with
  | nil => simp
  | cons a l ih =>
    rw [foldl_cons, ih, get?_erase]
    by_cases hl : k ∈ l
    · simp [hl]
    · by_cases ha : k = a <;> simp [hl, ha]

lemma countP_erase_of_some (h : t.get? k = some r) (p : ρ → Bool) :
    t.rows.countP p = (t.erase k).rows.countP p + if p r then 1 else 0 := by
  have hsplit := countP_eq_countP_filter_add t.rows p fun r => decide (key r ≠ k)
  have hone : (t.rows.filter fun r => !decide (key r ≠ k)) = [r] := by
    obtain ⟨hr, rfl⟩ := get?_eq_some.mp h
    simpa using filter_key_eq_singleton t.nodup hr
  rw [hone] at hsplit
  rw [hsplit, erase, filter, countP_singleton]

lemma erase_of_none (h : t.get? k = none) : (t.erase k).rows = t.rows := by
  refine filter_eq_self.mpr fun r hr => ?_
  rw [decide_eq_true_eq]
  exact get?_eq_none.mp h r hr

lemma countP_put (t : Table key) (r : ρ) (p : ρ → Bool) :
    (t.put r).rows.countP p = (t.erase (key r)).rows.countP p + if p r then 1 else 0 :=
  countP_cons

end Lookup

end Table

end LlmdAsync
