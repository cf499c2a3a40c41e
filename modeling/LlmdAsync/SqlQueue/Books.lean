import LlmdAsync.SqlQueue.ClusterRules

/-!
# The books of a consumer

What the critical sections do to the three places where a consumer remembers its dispatches: the
in-flight map, the orphans and the reconcile flag.  The loops over requests and stamps are described
by what a lookup returns after the whole loop.
-/

namespace LlmdAsync.SqlQueue

open List Option Table

namespace Consumer

variable {c : Consumer} {k : Key}

/-! ### Single rounds -/

@[simp] lemma inflight_adjust (p e : ℤ) (f : ℕ → ℕ) : (c.adjust p e f).inflight = c.inflight := rfl

@[simp] lemma orphans_adjust (p e : ℤ) (f : ℕ → ℕ) : (c.adjust p e f).orphans = c.orphans := rfl

@[simp] lemma reconcile_adjust (p e : ℤ) (f : ℕ → ℕ) :
    (c.adjust p e f).reconcile = c.reconcile := rfl

@[simp] lemma inflight_untrackLocked (t : Tracked) :
    (c.untrackLocked t).inflight = c.inflight.erase t.key := rfl

@[simp] lemma orphans_untrackLocked (t : Tracked) : (c.untrackLocked t).orphans = c.orphans := rfl

lemma get?_inflight_trackOne (r : Request) :
    (c.trackOne r).inflight.get? k = if k = r.key then some (tracked r)
      else c.inflight.get? k := by
  unfold trackOne
  rw [inflight_adjust, get?_put]
  show (if k = r.key then _ else _) = _
  by_cases hk : k = r.key
  · rw [if_pos hk, if_pos hk]
  · rw [if_neg hk, if_neg hk]
    cases hprev : c.inflight.get? r.key with
    | none => rfl
    | some prev =>
      have hne : k ≠ prev.key := by rwa [key_of_get? hprev]
      simp only [inflight_untrackLocked]
      rw [get?_erase_of_ne _ hne]

lemma get?_orphans_trackOne (r : Request) :
    (c.trackOne r).orphans.get? k = if k = r.key then none else c.orphans.get? k := by
  unfold trackOne
  rw [orphans_adjust, get?_erase]
  cases c.inflight.get? r.key with
  | none | some prev => rfl

lemma reconcile_trackOne (r : Request) : (c.trackOne r).reconcile = c.reconcile := by
  unfold trackOne
  rw [reconcile_adjust]
  cases c.inflight.get? r.key with
  | none | some prev => rfl

lemma get?_inflight_doneOne (stamp : Stamp) :
    (c.doneOne stamp).inflight.get? k =
      (c.inflight.get? k).filter fun t => decide (⟨k, t.attempt⟩ ≠ stamp) := by
  obtain ⟨key, attempt⟩ := stamp
  simp only [ne_eq, Stamp.mk.injEq]
  refine get?_erase_if (fun t : Tracked => t.attempt = attempt) (fun t ht ha => ?_)
    (fun hno => ?_) k
  · simp [doneOne, ht, ha, key_of_get? ht]
  · cases hs : c.inflight.get? key with
    | none => simp [doneOne, hs]
    | some t => simp [doneOne, hs, hno t hs]

lemma orphans_doneOne (stamp : Stamp) : (c.doneOne stamp).orphans = c.orphans := by
  unfold doneOne
  split
  · split <;> rfl
  · rfl

lemma reconcile_doneOne (stamp : Stamp) : (c.doneOne stamp).reconcile = c.reconcile := by
  unfold doneOne
  split
  · split <;> rfl
  · rfl

lemma inflight_abandonOne (stamp : Stamp) :
    (c.abandonOne stamp).inflight = (c.doneOne stamp).inflight := by
  unfold abandonOne doneOne
  split
  · split <;> rfl
  · rfl

lemma get?_orphans_abandonOne (stamp : Stamp) :
    (c.abandonOne stamp).orphans.get? k =
      if k = stamp.key ∧ ∃ t, c.inflight.get? k = some t ∧ t.attempt = stamp.attempt then some stamp
      else c.orphans.get? k := by
  unfold abandonOne
  cases hs : c.inflight.get? stamp.key with
  | none =>
    rw [if_neg]
    rintro ⟨rfl, t, ht, -⟩
    rw [hs] at ht
    cases ht
  | some t =>
    simp only
    by_cases ha : t.attempt = stamp.attempt
    · rw [if_pos ha, orphans_untrackLocked, get?_put]
      by_cases hk : k = stamp.key
      · rw [if_pos hk, if_pos ⟨hk, t, hk ▸ hs, ha⟩, ha]
      · rw [if_neg hk, if_neg fun h => hk h.1]
    · rw [if_neg ha, if_neg]
      rintro ⟨rfl, t', ht', ha'⟩
      rw [hs, some.injEq] at ht'
      exact ha (ht' ▸ ha')

lemma reconcile_abandonOne (stamp : Stamp) : (c.abandonOne stamp).reconcile = c.reconcile := by
  unfold abandonOne
  split
  · split <;> rfl
  · rfl

lemma get?_orphans_forgetOne (stamp : Stamp) :
    (c.forgetOne stamp).orphans.get? k = (c.orphans.get? k).filter fun o => decide (o ≠ stamp):= by
  obtain ⟨key, attempt⟩ := stamp
  rw [get?_erase_if (t := c.orphans) (k := key) (fun o => o.attempt = attempt)
    (fun o ho ha => by simp [forgetOne, ho, ha]) fun hno => ?_]
  · cases hk : c.orphans.get? k with
    | none => rfl
    | some o =>
      obtain rfl : o.key = k := key_of_get? hk
      cases o
      simp only [filter_some, ne_eq, Stamp.mk.injEq]
  · cases hs : c.orphans.get? key with
    | none => simp [forgetOne, hs]
    | some o => simp [forgetOne, hs, hno o hs]

lemma forgetOne_books (stamp : Stamp) :
    (c.forgetOne stamp).inflight = c.inflight ∧ (c.forgetOne stamp).reconcile = c.reconcile ∧
      (c.forgetOne stamp).leases = c.leases := by
  unfold forgetOne
  split
  · split <;> exact ⟨rfl, rfl, rfl⟩
  · exact ⟨rfl, rfl, rfl⟩

/-! ### Whole loops -/

lemma foldl_same {α β : Type} {step : Consumer → α → Consumer} (get : Consumer → β)
    (h : ∀ c a, get (step c a) = get c) (as : List α) : get (as.foldl step c) = get c := by
  induction as generalizing c with
  | nil => rfl
  | cons a as ih => rw [foldl_cons, ih, h]

/-- Every round of a loop drops an entry, if it has the stamp of the round. -/
lemma filter_foldl {α : Type} (get : Consumer → Option α) {step : Consumer → Stamp → Consumer}
    {f : α → Stamp}
    (h : ∀ c stamp, get (step c stamp) = (get c).filter fun a => decide (f a ≠ stamp))
    (stamps : List Stamp) :
    get (stamps.foldl step c) = (get c).filter fun a => decide (f a ∉ stamps) := by
  induction stamps generalizing c with
  | nil => cases hc : get c <;> simp [hc, filter_some]
  | cons stamp stamps ih =>
    rw [List.foldl_cons, ih, h, Option.filter_filter]
    congr 1
    funext a
    simp [not_or]

lemma track_of_not_mem {rows : List Request} (h : k ∉ rows.map Request.key) :
    (c.track rows).inflight.get? k = c.inflight.get? k ∧
      (c.track rows).orphans.get? k = c.orphans.get? k := by
  unfold track
  induction rows generalizing c with
  | nil => exact ⟨rfl, rfl⟩
  | cons r rows ih =>
    rw [map_cons, mem_cons, not_or] at h
    obtain ⟨h₁, h₂⟩ := ih (c := c.trackOne r) h.2
    rw [foldl_cons, h₁, h₂, get?_inflight_trackOne, get?_orphans_trackOne, if_neg h.1, if_neg h.1]
    exact ⟨rfl, rfl⟩

lemma track_of_mem {rows : List Request} (hnd : (rows.map Request.key).Nodup) {r : Request}
    (hr : r ∈ rows) :
    (c.track rows).inflight.get? r.key = some (tracked r) ∧
      (c.track rows).orphans.get? r.key = none := by
  unfold track
  induction rows generalizing c with
  | nil => cases hr
  | cons r₁ rows ih =>
    rw [map_cons, nodup_cons] at hnd
    rw [foldl_cons]
    rcases mem_cons.mp hr with rfl | hr
    · obtain ⟨h₁, h₂⟩ := track_of_not_mem (c := c.trackOne r) hnd.1
      unfold track at h₁ h₂
      rw [h₁, h₂, get?_inflight_trackOne, get?_orphans_trackOne, if_pos rfl, if_pos rfl]
      exact ⟨rfl, rfl⟩
    · exact ih hnd.2 hr

lemma get?_inflight_track {rows : List Request} {x : Tracked}
    (h : (c.track rows).inflight.get? k = some x) :
    c.inflight.get? k = some x ∨ ∃ r ∈ rows, r.key = k ∧ x = tracked r := by
  unfold track at h
  induction rows generalizing c with
  | nil => exact .inl h
  | cons r rows ih =>
    rw [foldl_cons] at h
    rcases ih h with h₁ | ⟨r', hr', hk, rfl⟩
    · rw [get?_inflight_trackOne] at h₁
      split at h₁
      next hk =>
        exact .inr ⟨r, mem_cons_self, hk.symm, (some.inj h₁).symm⟩
      · exact .inl h₁
    · exact .inr ⟨r', mem_cons_of_mem r hr', hk, rfl⟩

lemma orphans_track_of_none (rows : List Request) (h : c.orphans.get? k = none) :
    (c.track rows).orphans.get? k = none := by
  refine foldlRecOn (motive := fun c => c.orphans.get? k = none) rows trackOne h
    fun c h r _ => ?_
  rw [get?_orphans_trackOne]
  split
  · rfl
  · exact h

lemma reconcile_track (rows : List Request) : (c.track rows).reconcile = c.reconcile :=
  foldl_same reconcile (fun _ => reconcile_trackOne) rows

lemma get?_inflight_doneStamps (stamps : List Stamp) :
    (c.doneStamps stamps).inflight.get? k =
      (c.inflight.get? k).filter fun t => decide (⟨k, t.attempt⟩ ∉ stamps) :=
  filter_foldl (fun c => c.inflight.get? k) (fun _ => get?_inflight_doneOne) stamps

lemma orphans_doneStamps (stamps : List Stamp) : (c.doneStamps stamps).orphans = c.orphans :=
  foldl_same orphans (fun _ => orphans_doneOne) stamps

lemma reconcile_doneStamps (stamps : List Stamp) :
    (c.doneStamps stamps).reconcile = c.reconcile :=
  foldl_same reconcile (fun _ => reconcile_doneOne) stamps

lemma get?_inflight_abandon (stamps : List Stamp) :
    (c.abandon stamps).inflight.get? k =
      (c.inflight.get? k).filter fun t => decide (⟨k, t.attempt⟩ ∉ stamps) := by
  refine filter_foldl (fun c => c.inflight.get? k) (fun c stamp => ?_) stamps
  rw [inflight_abandonOne, get?_inflight_doneOne]

lemma get?_orphans_abandon (stamps : List Stamp) :
    (c.abandon stamps).orphans.get? k =
      match c.inflight.get? k with
      | some t => if ⟨k, t.attempt⟩ ∈ stamps then some ⟨k, t.attempt⟩ else c.orphans.get? k
      | none => c.orphans.get? k := by
  unfold abandon
  induction stamps generalizing c with
  | nil => cases c.inflight.get? k <;> simp
  | cons stamp stamps ih =>
    rw [foldl_cons, ih, inflight_abandonOne, get?_inflight_doneOne, get?_orphans_abandonOne]
    cases hk : c.inflight.get? k with
    | none =>
      rw [filter_none, if_neg]
      rintro ⟨-, t, ht, -⟩
      cases ht
    | some t =>
      by_cases heq : (⟨k, t.attempt⟩ : Stamp) = stamp
      · have hpos : k = stamp.key ∧ ∃ t', some t = some t' ∧ t'.attempt = stamp.attempt :=
          ⟨congrArg Stamp.key heq, t, rfl, congrArg Stamp.attempt heq⟩
        rw [filter_some_neg (by simpa using heq), if_pos hpos]
        simp [heq]
      · have hneg : ¬(k = stamp.key ∧ ∃ t', some t = some t' ∧ t'.attempt = stamp.attempt) := by
          rintro ⟨hkey, t', ht', ha⟩
          cases ht'
          cases stamp
          cases hkey
          cases ha
          exact heq rfl
        rw [filter_some_pos (by simpa using heq), if_neg hneg]
        simp [heq]

lemma reconcile_abandon (stamps : List Stamp) : (c.abandon stamps).reconcile = c.reconcile :=
  foldl_same reconcile (fun _ => reconcile_abandonOne) stamps

lemma get?_orphans_forgetOrphans (stamps : List Stamp) :
    (c.forgetOrphans stamps).orphans.get? k =
      (c.orphans.get? k).filter fun o => decide (o ∉ stamps) :=
  filter_foldl (fun c => c.orphans.get? k) (f := id) (fun _ => get?_orphans_forgetOne) stamps

lemma inflight_forgetOrphans (stamps : List Stamp) :
    (c.forgetOrphans stamps).inflight = c.inflight :=
  foldl_same inflight (fun _ stamp => (forgetOne_books stamp).1) stamps

lemma reconcile_forgetOrphans (stamps : List Stamp) :
    (c.forgetOrphans stamps).reconcile = c.reconcile :=
  foldl_same reconcile (fun _ stamp => (forgetOne_books stamp).2.1) stamps

lemma leases_forgetOrphans (stamps : List Stamp) : (c.forgetOrphans stamps).leases = c.leases :=
  foldl_same leases (fun _ stamp => (forgetOne_books stamp).2.2) stamps

end Consumer

lemma Critical.isLease_books {s : Critical} (hs : s.isLease = true) (c : Consumer) :
    (s.run c).2.inflight = c.inflight ∧ (s.run c).2.orphans = c.orphans ∧
      (s.run c).2.reconcile = c.reconcile := by
  cases s with
  | track | markReconcile | done | abandon | forgetOrphans | clearReconcile => cases hs
  | _ => exact ⟨rfl, rfl, rfl⟩

end LlmdAsync.SqlQueue
