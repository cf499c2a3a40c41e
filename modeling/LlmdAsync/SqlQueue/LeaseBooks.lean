import LlmdAsync.SqlQueue.Books

/-!
# The leases of a consumer

What the critical sections do to the lease map, and to the count of requests in flight that every
lease carries.  The count is exact when it is the number of in-flight entries of the lease's
partition and epoch.  Booking and unbooking requests keeps it exact; a lease that is new to the map
starts with the count zero, which is exact only if nothing of its epoch is in flight.
-/

namespace LlmdAsync.SqlQueue

open List Option Table Consumer

namespace Consumer

/-- The number of in-flight entries of a partition and epoch. -/
def load (c : Consumer) (p e : ℤ) : ℕ :=
  c.inflight.rows.countP fun t => t.partition = p && t.epoch = e

/-- The epoch at which the consumer believes to hold a partition. -/
def leaseEpoch (c : Consumer) (p : ℤ) : Option ℤ := (c.leases.get? p).map PartitionState.epoch

/-- Every lease counts what is in flight. -/
def Exact (c : Consumer) : Prop :=
  ∀ p st, c.leases.get? p = some st → st.inflight = c.load p st.epoch

variable {c : Consumer}

/-! ### Booking and unbooking -/

/-- `adjust` changes the count of one lease. -/
lemma get?_leases_adjust (p e : ℤ) (f : ℕ → ℕ) (p' : ℤ) :
    (c.adjust p e f).leases.get? p' = (c.leases.get? p').map fun st =>
      if p' = p ∧ st.epoch = e then { st with inflight := f st.inflight } else st := by
  unfold adjust
  rw [get?_map]
  cases h : c.leases.get? p' with
  | none => rfl
  | some st => rw [map_some, map_some, key_of_get? h]

/-- `adjust` keeps the epochs. -/
@[simp] lemma leaseEpoch_adjust (p e : ℤ) (f : ℕ → ℕ) (p' : ℤ) :
    (c.adjust p e f).leaseEpoch p' = c.leaseEpoch p' := by
  unfold leaseEpoch
  rw [get?_leases_adjust, Option.map_map]
  congr 1
  funext st
  simp only [Function.comp_apply]
  split <;> rfl

/-- `untrackLocked` keeps the epochs. -/
@[simp] lemma leaseEpoch_untrackLocked (t : Tracked) (p : ℤ) :
    (c.untrackLocked t).leaseEpoch p = c.leaseEpoch p := leaseEpoch_adjust ..

/-- Counts stay exact if the entries in flight change as the count does. -/
lemma exact_adjust {c' : Consumer} {p e : ℤ} {f : ℕ → ℕ} (h : c.Exact)
    (hleases : c'.leases = c.leases)
    (hload : ∀ p' e', c'.load p' e' = if p' = p ∧ e' = e then f (c.load p' e')
      else c.load p' e') : (c'.adjust p e f).Exact := by
  intro p' st hst
  rw [get?_leases_adjust, hleases] at hst
  obtain ⟨st₀, hst₀, rfl⟩ := map_eq_some_iff.mp hst
  have h₀ := h p' st₀ hst₀
  by_cases hpe : p' = p ∧ st₀.epoch = e
  · rw [if_pos hpe]
    show f st₀.inflight = c'.load p' st₀.epoch
    rw [hload, if_pos hpe, h₀]
  · rw [if_neg hpe]
    show st₀.inflight = c'.load p' st₀.epoch
    rw [hload, if_neg hpe, h₀]

/-- An entry of another partition or epoch does not count. -/
lemma not_loaded {t : Tracked} {p e : ℤ} (h : ¬(p = t.partition ∧ e = t.epoch)) :
    (decide (t.partition = p) && decide (t.epoch = e)) = false := by
  refine Bool.eq_false_iff.mpr fun ht => h ?_
  rw [Bool.and_eq_true, decide_eq_true_eq, decide_eq_true_eq] at ht
  exact ⟨ht.1.symm, ht.2.symm⟩

/-- Unbooking a request keeps the counts exact. -/
lemma exact_untrackLocked {t : Tracked} (h : c.Exact) (ht : c.inflight.get? t.key = some t) :
    (c.untrackLocked t).Exact := by
  refine exact_adjust h rfl fun p e => ?_
  have hcount := countP_erase_of_some ht fun t => t.partition = p && t.epoch = e
  unfold load
  rw [hcount]
  by_cases hpe : p = t.partition ∧ e = t.epoch
  · obtain ⟨rfl, rfl⟩ := hpe
    simp
  · rw [if_neg hpe, not_loaded hpe]
    rfl

/-- Booking a request that is not in flight keeps the counts exact. -/
lemma exact_book {r : Request} (h : c.Exact) (hnone : c.inflight.get? r.key = none)
    (orphans : Table Stamp.key) :
    ({ c with orphans := orphans, inflight := c.inflight.put (tracked r) }.adjust r.partition
      r.epoch fun n => n + 1).Exact := by
  refine exact_adjust h rfl fun p e => ?_
  have hcount := countP_put c.inflight (tracked r) fun t => t.partition = p && t.epoch = e
  have hold : (c.inflight.erase (tracked r).key).rows = c.inflight.rows :=
    erase_of_none hnone
  unfold load
  rw [hcount, hold]
  by_cases hpe : p = r.partition ∧ e = r.epoch
  · obtain ⟨rfl, rfl⟩ := hpe
    simp [tracked]
  · rw [if_neg hpe, not_loaded hpe]
    rfl

/-- Booking keeps the counts exact: an older entry of the request is unbooked first. -/
lemma exact_trackOne (r : Request) (h : c.Exact) : (c.trackOne r).Exact := by
  unfold trackOne
  cases hprev : c.inflight.get? r.key with
  | none => exact exact_book h hprev _
  | some prev =>
    have hk : prev.key = r.key := key_of_get? hprev
    refine exact_book (exact_untrackLocked h (hk.symm ▸ hprev)) ?_ _
    rw [inflight_untrackLocked, hk, get?_erase_self]

/-- Booking keeps the epochs. -/
lemma leaseEpoch_trackOne (r : Request) (p : ℤ) :
    (c.trackOne r).leaseEpoch p = c.leaseEpoch p := by
  unfold trackOne
  rw [leaseEpoch_adjust]
  cases c.inflight.get? r.key with
  | none => rfl
  | some prev => exact leaseEpoch_untrackLocked prev p

/-- Settling a request keeps the counts exact. -/
lemma exact_doneOne (stamp : Stamp) (h : c.Exact) : (c.doneOne stamp).Exact := by
  unfold doneOne
  cases hs : c.inflight.get? stamp.key with
  | none => exact h
  | some t =>
    simp only
    split
    · exact exact_untrackLocked h ((key_of_get? hs).symm ▸ hs)
    · exact h

/-- Settling keeps the epochs. -/
lemma leaseEpoch_doneOne (stamp : Stamp) (p : ℤ) :
    (c.doneOne stamp).leaseEpoch p = c.leaseEpoch p := by
  unfold doneOne
  split
  · split
    · exact leaseEpoch_untrackLocked _ p
    · rfl
  · rfl

/-- For the leases, abandoning is settling. -/
lemma leases_abandonOne (stamp : Stamp) :
    (c.abandonOne stamp).leases = (c.doneOne stamp).leases := by
  unfold abandonOne doneOne
  split
  · split <;> rfl
  · rfl

/-- Exactness is about leases and entries in flight only. -/
lemma exact_congr {c' : Consumer} (hl : c'.leases = c.leases) (hi : c'.inflight = c.inflight)
    (h : c.Exact) : c'.Exact := by
  intro p st hst
  unfold load
  rw [hi]
  exact h p st (hl ▸ hst)

/-- `track` keeps the counts exact. -/
lemma exact_track (rows : List Request) (h : c.Exact) : (c.track rows).Exact :=
  foldlRecOn (motive := Exact) rows trackOne h fun _ h r _ => exact_trackOne r h

/-- `track` keeps the epochs. -/
lemma leaseEpoch_track (rows : List Request) (p : ℤ) :
    (c.track rows).leaseEpoch p = c.leaseEpoch p :=
  foldl_same (leaseEpoch · p) (fun _ r => leaseEpoch_trackOne r p) rows

/-- `doneStamps` keeps the counts exact. -/
lemma exact_doneStamps (stamps : List Stamp) (h : c.Exact) : (c.doneStamps stamps).Exact :=
  foldlRecOn (motive := Exact) stamps doneOne h fun _ h stamp _ => exact_doneOne stamp h

/-- `doneStamps` keeps the epochs. -/
lemma leaseEpoch_doneStamps (stamps : List Stamp) (p : ℤ) :
    (c.doneStamps stamps).leaseEpoch p = c.leaseEpoch p :=
  foldl_same (leaseEpoch · p) (fun _ stamp => leaseEpoch_doneOne stamp p) stamps

/-- `abandon` keeps the counts exact. -/
lemma exact_abandon (stamps : List Stamp) (h : c.Exact) : (c.abandon stamps).Exact :=
  foldlRecOn (motive := Exact) stamps abandonOne h fun _ h stamp _ =>
    exact_congr (leases_abandonOne stamp) (inflight_abandonOne stamp) (exact_doneOne stamp h)

/-- `abandon` keeps the epochs. -/
lemma leaseEpoch_abandon (stamps : List Stamp) (p : ℤ) :
    (c.abandon stamps).leaseEpoch p = c.leaseEpoch p := by
  refine foldl_same (leaseEpoch · p) (fun c stamp => ?_) stamps
  rw [leaseEpoch, leases_abandonOne]
  exact leaseEpoch_doneOne stamp p

/-! ### Leases come and go -/

/-- A lease of the same epoch keeps its count, and any other starts at zero. -/
lemma syncLease_spec (now : Time) (l : Lease) :
    (c.syncLease now l).epoch = l.epoch ∧
      (∀ st, c.leases.get? l.partition = some st → st.epoch = l.epoch →
        (c.syncLease now l).inflight = st.inflight) ∧
      (c.leaseEpoch l.partition ≠ some l.epoch → (c.syncLease now l).inflight = 0) := by
  unfold syncLease leaseEpoch
  cases h : c.leases.get? l.partition with
  | none => exact ⟨rfl, fun st hst => by (cases hst), fun _ => rfl⟩
  | some st =>
    by_cases he : st.epoch = l.epoch
    · simp only [if_pos he]
      refine ⟨he, ?_, fun hne => absurd (congrArg some he) hne⟩
      rintro st' hst' -
      cases hst'
      rfl
    · simp only [if_neg he]
      refine ⟨rfl, ?_, fun _ => rfl⟩
      rintro st' hst' he'
      cases hst'
      exact absurd he' he

/-- After `syncLeases`, the leases are those that are held. -/
lemma get?_leases_syncLeases {held : List Lease} (hnd : (held.map Lease.partition).Nodup)
    (now : Time) (p : ℤ) :
    (∀ l ∈ held, l.partition = p →
      (c.syncLeases held now).leases.get? p = some (c.syncLease now l)) ∧
    (p ∉ held.map Lease.partition → (c.syncLeases held now).leases.get? p = none) := by
  have hkeys : (held.map fun l => (c.syncLease now l).partition) = held.map Lease.partition :=
    map_congr_left fun l _ => partition_syncLease c now l
  refine ⟨?_, fun hp => ?_⟩
  · rintro l hl rfl
    have hget := get?_foldl_put_of_mem (f := c.syncLease now) (hkeys.symm ▸ hnd) hl
      (.empty : Table PartitionState.partition)
    rw [partition_syncLease] at hget
    exact hget
  · exact get?_foldl_put_of_not_mem (f := c.syncLease now) (hkeys.symm ▸ hp) _

/-- `syncLeases` keeps the counts exact if nothing of a new epoch is in flight. -/
lemma exact_syncLeases {held : List Lease} (hnd : (held.map Lease.partition).Nodup) (now : Time)
    (h : c.Exact) (hnew : ∀ l ∈ held, c.leaseEpoch l.partition ≠ some l.epoch →
      c.load l.partition l.epoch = 0) : (c.syncLeases held now).Exact := by
  intro p st hst
  obtain ⟨hin, hout⟩ := get?_leases_syncLeases (c := c) hnd now p
  by_cases hp : p ∈ held.map Lease.partition
  · obtain ⟨l, hl, rfl⟩ := mem_map.mp hp
    rw [hin l hl rfl, some.injEq] at hst
    subst hst
    obtain ⟨hepoch, hknown, hfresh⟩ := syncLease_spec (c := c) now l
    show (c.syncLease now l).inflight = c.load l.partition (c.syncLease now l).epoch
    rw [hepoch]
    by_cases hle : c.leaseEpoch l.partition = some l.epoch
    · obtain ⟨st₀, hst₀, he₀⟩ := map_eq_some_iff.mp hle
      rw [hknown st₀ hst₀ he₀, h _ _ hst₀, he₀]
    · rw [hfresh hle, hnew l hl hle]
  · rw [hout hp] at hst
    cases hst

/-- After `syncLeases`, the epochs are those that are held. -/
lemma leaseEpoch_syncLeases {held : List Lease} (hnd : (held.map Lease.partition).Nodup)
    (now : Time) {p e : ℤ} :
    (c.syncLeases held now).leaseEpoch p = some e ↔ ∃ l ∈ held, l.partition = p ∧ l.epoch = e:= by
  obtain ⟨hin, hout⟩ := get?_leases_syncLeases (c := c) hnd now p
  unfold leaseEpoch
  constructor
  · intro h
    by_cases hp : p ∈ held.map Lease.partition
    · obtain ⟨l, hl, rfl⟩ := mem_map.mp hp
      rw [hin l hl rfl, map_some, some.injEq, (syncLease_spec now l).1] at h
      exact ⟨l, hl, rfl, h⟩
    · rw [hout hp] at h
      cases h
  · rintro ⟨l, hl, hlp, rfl⟩
    rw [hin l hl hlp, map_some, (syncLease_spec now l).1]

/-- `adopt` adds fresh leases. -/
lemma get?_leases_adopt {acquired : List Lease} (hnd : (acquired.map Lease.partition).Nodup)
    (now : Time) (p : ℤ) :
    (∀ l ∈ acquired, l.partition = p →
      (c.adopt acquired now).leases.get? p = some (.fresh p l.epoch now)) ∧
    (p ∉ acquired.map Lease.partition → (c.adopt acquired now).leases.get? p = c.leases.get? p):= by
  refine ⟨?_, fun hp => ?_⟩
  · rintro l hl rfl
    exact get?_foldl_put_of_mem
      (f := fun l : Lease => PartitionState.fresh l.partition l.epoch now) hnd hl c.leases
  · exact get?_foldl_put_of_not_mem
      (f := fun l : Lease => PartitionState.fresh l.partition l.epoch now) hp c.leases

/-- `adopt` keeps the counts exact if nothing of the new epochs is in flight. -/
lemma exact_adopt {acquired : List Lease} (hnd : (acquired.map Lease.partition).Nodup)
    (now : Time) (h : c.Exact) (hnew : ∀ l ∈ acquired, c.load l.partition l.epoch = 0) :
    (c.adopt acquired now).Exact := by
  intro p st hst
  obtain ⟨hin, hout⟩ := get?_leases_adopt (c := c) hnd now p
  by_cases hp : p ∈ acquired.map Lease.partition
  · obtain ⟨l, hl, rfl⟩ := mem_map.mp hp
    rw [hin l hl rfl, some.injEq] at hst
    subst hst
    exact (hnew l hl).symm
  · exact h p st (hout hp ▸ hst)

/-- `adopt` sets the epochs of the acquired leases. -/
lemma leaseEpoch_adopt {acquired : List Lease} (hnd : (acquired.map Lease.partition).Nodup)
    (now : Time) (p : ℤ) :
    (∀ l ∈ acquired, l.partition = p → (c.adopt acquired now).leaseEpoch p = some l.epoch) ∧
    (p ∉ acquired.map Lease.partition → (c.adopt acquired now).leaseEpoch p = c.leaseEpoch p):= by
  obtain ⟨hin, hout⟩ := get?_leases_adopt (c := c) hnd now p
  unfold leaseEpoch
  refine ⟨fun l hl hlp => ?_, fun hp => by rw [hout hp]⟩
  rw [hin l hl hlp]
  rfl

/-- `dropLeases` removes leases. -/
lemma leaseEpoch_dropLeases (ps : List ℤ) (p : ℤ) :
    (c.dropLeases ps).leaseEpoch p = if p ∈ ps then none else c.leaseEpoch p := by
  unfold leaseEpoch dropLeases
  rw [get?_foldl_erase]
  split <;> rfl

/-- `dropLeases` keeps the counts exact. -/
lemma exact_dropLeases (ps : List ℤ) (h : c.Exact) : (c.dropLeases ps).Exact := by
  intro p st hst
  unfold dropLeases at hst
  rw [get?_foldl_erase] at hst
  split at hst
  · cases hst
  · exact h p st hst

/-- The partitions of the leases with a property, sorted. -/
lemma mem_listed {P : PartitionState → Bool} {p : ℤ} :
    p ∈ sortInts ((c.leases.rows.filter P).map PartitionState.partition) ↔
      ∃ st, c.leases.get? p = some st ∧ P st = true := by
  simp only [sortInts, List.mem_insertionSort, List.mem_map, List.mem_filter, Table.get?_eq_some]
  constructor
  · rintro ⟨st, ⟨hmem, hP⟩, rfl⟩
    exact ⟨st, ⟨hmem, rfl⟩, hP⟩
  · rintro ⟨st, ⟨hmem, rfl⟩, hP⟩
    exact ⟨st, ⟨hmem, hP⟩, rfl⟩

/-- What drains and has nothing in flight, or has been draining for long enough. -/
lemma mem_drained {now timeout : Time} {p : ℤ} :
    p ∈ c.drained now timeout ↔ ∃ st, c.leases.get? p = some st ∧ st.draining = true ∧
      (st.inflight = 0 ∨ timeout ≤ now - st.drainSince) :=
  mem_listed.trans (by simp only [Bool.and_eq_true, Bool.or_eq_true, decide_eq_true_eq])

/-- Changes that spare epochs and counts keep the counts exact. -/
lemma exact_map {f : PartitionState → PartitionState} {hf : ∀ st, (f st).partition = st.partition}
    (h : c.Exact) (hepoch : ∀ st, (f st).epoch = st.epoch)
    (hcount : ∀ st, (f st).inflight = st.inflight) :
    { c with leases := c.leases.map f hf }.Exact := by
  intro p st hst
  rw [get?_map] at hst
  obtain ⟨st₀, hst₀, rfl⟩ := map_eq_some_iff.mp hst
  rw [hepoch, hcount]
  exact h p st₀ hst₀

/-- Changes that spare epochs keep them. -/
lemma leaseEpoch_map {f : PartitionState → PartitionState}
    {hf : ∀ st, (f st).partition = st.partition} (hepoch : ∀ st, (f st).epoch = st.epoch) (p : ℤ) :
    { c with leases := c.leases.map f hf }.leaseEpoch p = c.leaseEpoch p := by
  unfold leaseEpoch
  rw [Table.get?_map, Option.map_map]
  congr 1
  funext st
  exact hepoch st

end Consumer

/-- The critical section leaves the lease map alone, up to the drain marks. -/
def Critical.keepsLeases : Critical → Bool
  | .track _ | .done _ | .abandon _ => false
  | .syncLeases .. | .dropLeases _ | .adopt .. | .clearLeases => false
  | _ => true

/-- Such a section keeps what is in flight, the epochs and exact counts. -/
lemma Critical.keepsLeases_spec {s : Critical} (hs : s.keepsLeases = true) {c : Consumer} :
    (s.run c).2.inflight = c.inflight ∧ (∀ p, (s.run c).2.leaseEpoch p = c.leaseEpoch p) ∧
      (c.Exact → (s.run c).2.Exact) := by
  cases s with
  | track | done | abandon | syncLeases | dropLeases | adopt | clearLeases => cases hs
  | forgetOrphans stamps =>
    have hl : (c.forgetOrphans stamps).leases = c.leases := leases_forgetOrphans stamps
    have hi : (c.forgetOrphans stamps).inflight = c.inflight := inflight_forgetOrphans _
    refine ⟨hi, fun p => ?_, exact_congr hl hi⟩
    show (c.forgetOrphans stamps).leaseEpoch p = c.leaseEpoch p
    unfold leaseEpoch
    rw [hl]
  | undrain ps | drain ps now =>
    exact ⟨rfl, leaseEpoch_map fun st => by (split <;> rfl),
      fun h => exact_map h (fun st => by (split <;> rfl)) fun st => by (split <;> rfl)⟩
  | _ => exact ⟨rfl, fun _ => rfl, fun h => h⟩

end LlmdAsync.SqlQueue
