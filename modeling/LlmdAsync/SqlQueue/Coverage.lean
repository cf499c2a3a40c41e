import LlmdAsync.SqlQueue.Books

/-!
# No stranded request

A dispatch in force blocks its request until the consumer ends it, because the consumer keeps
renewing the lease.  So every dispatch in force has to be on the consumer's books: in the in-flight
map, among the orphans, announced by the reconcile flag, or about to be booked by a `Poll` that is
still running.

`Covered` is this invariant.  What a thread has to know to keep it is stable under the actions of
the others (`Rely`), mostly because the mutex `cycle` keeps other operations from dispatching, and
because a dispatch that has ended never comes back.
-/

namespace LlmdAsync.SqlQueue

open Option Cluster Consumer

/-- The dispatch is on the books: in flight or an orphan. -/
def Consumer.Books (m : Consumer) (k : Key) (a : ℤ) : Prop :=
  (∃ t, m.inflight.get? k = some t ∧ t.attempt = a) ∨ m.orphans.get? k = some ⟨k, a⟩

/-- The thread holds the mutex `cycle` of its consumer. -/
def Cluster.Holds (σ : Cluster) (t : Thread) (op : CycleOp) : Prop :=
  σ.cycle t.consumer = some (t.num, op)

/-- Every dispatch in force is on the books. -/
structure Covered (σ : Cluster) : Prop where
  /-- In flight, orphaned, to be reconciled or being polled. -/
  books : ∀ c k a, σ.dead c = false → σ.world.db.Live c k a →
    (σ.memory c).Books k a ∨ (σ.memory c).reconcile = true ∨
      ∃ q ∈ σ.polling c, q.key = k ∧ q.attempt = a
  /-- Only a `Poll` that holds the mutex has dispatched requests that are not booked. -/
  polls : ∀ c, σ.polling c ≠ [] → ∃ n, σ.cycle c = some (n, .poll)
  /-- A key is not both in flight and an orphan. -/
  disjoint : ∀ c k, (σ.memory c).inflight.get? k = none ∨ (σ.memory c).orphans.get? k = none

/-- What a thread relies on. -/
structure Rely (t : Thread) (σ σ' : Cluster) : Prop where
  /-- Nobody takes the mutex away, or books what the holder has polled. -/
  holds : ∀ op, σ.Holds t op → σ'.Holds t op ∧ σ'.polling t.consumer = σ.polling t.consumer
  /-- Nobody takes the mutex on behalf of the thread. -/
  free : (∀ op, ¬σ.Holds t op) → ∀ op, ¬σ'.Holds t op
  /-- Attempts stay drawn. -/
  drawn : ∀ k a, a ∈ drawnAttempts σ.world.log k → a ∈ drawnAttempts σ'.world.log k
  /-- A dispatch that has ended never comes back. -/
  settled : ∀ k a, a ∈ drawnAttempts σ.world.log k → ¬σ.world.db.Live t.consumer k a →
    ¬σ'.world.db.Live t.consumer k a
  /-- Nobody else dispatches for the holder of the mutex. -/
  quiet : ∀ op, σ.Holds t op → ∀ k a, σ'.world.db.Live t.consumer k a →
    σ.world.db.Live t.consumer k a
  /-- Nobody else takes a dispatch in force off the books of the holder. -/
  booked : ∀ op, σ.Holds t op → ∀ k a, (σ.memory t.consumer).Books k a →
    σ'.world.db.Live t.consumer k a → (σ'.memory t.consumer).Books k a

variable {t : Thread} {op : CycleOp} {c : Owner} {s : Critical} {stamps : List Stamp}

lemma Rely.refl (t : Thread) (σ : Cluster) : Rely t σ σ :=
  ⟨fun _ h => ⟨h, rfl⟩, fun h => h, fun _ _ h => h, fun _ _ _ h => h, fun _ _ _ _ h => h,
    fun _ _ _ _ h _ => h⟩

variable {σ : Cluster}

lemma Rely.trans {σ' σ'' : Cluster} (h : Rely t σ σ') (h' : Rely t σ' σ'') :
    Rely t σ σ'' := by
  refine ⟨?_, fun hf => h'.free (h.free hf), fun k a hd => h'.drawn k a (h.drawn k a hd), ?_, ?_,
    ?_⟩
  · intro op hop
    obtain ⟨h₁, h₂⟩ := h.holds op hop
    obtain ⟨h₃, h₄⟩ := h'.holds op h₁
    exact ⟨h₃, h₄.trans h₂⟩
  · intro k a hd hl
    exact h'.settled k a (h.drawn k a hd) (h.settled k a hd hl)
  · intro op hop k a hl
    exact h.quiet op hop k a (h'.quiet op (h.holds op hop).1 k a hl)
  · intro op hop k a hb hl
    have hop' := (h.holds op hop).1
    exact h'.booked op hop' k a (h.booked op hop k a hb (h'.quiet op hop' k a hl)) hl

instance (t : Thread) : IsPreorder Cluster (Rely t) where
  refl := Rely.refl t
  trans _ _ _ := Rely.trans

/-- What a thread has to show for an action. -/
abbrev Good (t : Thread) (σ σ' : Cluster) : Prop := ThreadSystem.Keeps Covered Rely t σ σ'

/-- An action that disturbs nobody. -/
abbrev Mild (σ σ' : Cluster) : Prop := ThreadSystem.Spares Covered Rely σ σ'

lemma Cluster.Holds.not_holds {u : Thread} {op' : CycleOp} (h : σ.Holds t op) (hu : u ≠ t)
    (hc : u.consumer = t.consumer) : ¬σ.Holds u op' := by
  intro h'
  unfold Cluster.Holds at h h'
  rw [hc, h, some.injEq, Prod.mk.injEq] at h'
  refine hu ?_
  cases t
  cases u
  cases hc
  cases h'.1
  rfl

/-! ### Mutex and statements -/

lemma good_lock (hσ : Covered σ) (hfree : σ.cycle t.consumer = none) (op : CycleOp) :
    Good t σ (σ.setCycle t.consumer (some (t.num, op))) := by
  refine ⟨⟨hσ.books, ?_, hσ.disjoint⟩, ?_⟩
  · intro c hne
    obtain ⟨n, hn⟩ := hσ.polls c hne
    have hc : c ≠ t.consumer := by
      rintro rfl
      rw [hfree] at hn
      cases hn
    exact ⟨n, by rw [cycle_setCycle_of_ne _ hc]; exact hn⟩
  · intro u hu
    -- another thread of this consumer did not hold the mutex, and does not hold it now
    have hsame : u.consumer = t.consumer → ∀ op', ¬σ.Holds u op' := by
      intro hc op' h
      unfold Cluster.Holds at h
      rw [hc, hfree] at h
      cases h
    have hkeep : ∀ op', σ.Holds u op' →
        (σ.setCycle t.consumer (some (t.num, op))).Holds u op' := by
      intro op' h
      have hc : u.consumer ≠ t.consumer := fun hc => hsame hc op' h
      unfold Cluster.Holds
      rw [cycle_setCycle_of_ne _ hc]
      exact h
    refine ⟨fun op' h => ⟨hkeep op' h, rfl⟩, ?_, fun _ _ h => h, fun _ _ _ h => h,
      fun _ _ _ _ h => h, fun _ _ _ _ h _ => h⟩
    intro hnot op' h
    unfold Cluster.Holds at h
    by_cases hc : u.consumer = t.consumer
    · rw [hc, cycle_setCycle_self, some.injEq, Prod.mk.injEq] at h
      refine hu ?_
      cases t
      cases u
      cases hc
      cases h.1
      rfl
    · rw [cycle_setCycle_of_ne _ hc] at h
      exact hnot op' h

lemma good_unlock (hσ : Covered σ) (hop : σ.Holds t op) (hpoll : σ.polling t.consumer = []) :
    Good t σ (σ.setCycle t.consumer none) := by
  refine ⟨⟨hσ.books, ?_, hσ.disjoint⟩, ?_⟩
  · intro c hne
    have hc : c ≠ t.consumer := by
      rintro rfl
      exact hne hpoll
    obtain ⟨n, hn⟩ := hσ.polls c hne
    exact ⟨n, by rw [cycle_setCycle_of_ne _ hc]; exact hn⟩
  · intro u hu
    refine ⟨?_, ?_, fun _ _ h => h, fun _ _ _ h => h, fun _ _ _ _ h => h, fun _ _ _ _ h _ => h⟩
    · intro op' h
      have hc : u.consumer ≠ t.consumer := fun hc => hop.not_holds hu hc h
      refine ⟨?_, rfl⟩
      unfold Cluster.Holds
      rw [cycle_setCycle_of_ne _ hc]
      exact h
    · intro hnot op' h
      unfold Cluster.Holds at h
      by_cases hc : u.consumer = t.consumer
      · rw [hc, cycle_setCycle_self] at h
        cases h
      · rw [cycle_setCycle_of_ne _ hc] at h
        exact hnot op' h

variable {cfg : Owner → Config}

lemma mild_world (hσ : Covered σ) (hK : σ.Known cfg) {sched : Sched}
    {s : Stmt} {rep : Reply s} {w : World} (hexec : σ.world.exec sched s = some (rep, w))
    (hs : s.dispatcher? = none) : Mild σ { σ with world := w } := by
  have hlive : ∀ c k a, w.db.Live c k a → σ.world.db.Live c k a := by
    intro c k a hl
    rcases hK.live_of_exec hexec hl with h | ⟨hd, -⟩
    · exact h
    · rw [hs] at hd
      cases hd
  refine ⟨⟨fun c k a hd hl => hσ.books c k a hd (hlive c k a hl), hσ.polls, hσ.disjoint⟩, ?_⟩
  intro u
  exact ⟨fun _ h => ⟨h, rfl⟩, fun h => h, fun k a h => World.exec_drawn hexec h,
    fun k a _ hn hl => hn (hlive _ k a hl), fun _ _ k a hl => hlive _ k a hl,
    fun _ _ _ _ h _ => h⟩

lemma good_dispatch (hσ : Covered σ) (hK : σ.Known cfg) (hop : σ.Holds t .poll)
    (hpoll : σ.polling t.consumer = []) {sched : Sched} {queue : String} {now : Time} {limit : ℕ}
    {rep : List Request} {w : World}
    (hexec : σ.world.exec sched (.dispatch queue t.consumer now limit) = some (rep, w)) :
    Good t σ (σ.afterDispatch t.consumer rep w) := by
  have hlive : ∀ c k a, w.db.Live c k a → σ.world.db.Live c k a ∨
      t.consumer = c ∧ a ∉ drawnAttempts σ.world.log k ∧
        ∃ q ∈ rep, q.key = k ∧ q.attempt = a := by
    intro c k a hl
    rcases hK.live_of_exec hexec hl with h | ⟨hd, hnew, rows, hrows, hq⟩
    · exact .inl h
    · refine .inr ⟨some.inj hd, hnew, ?_⟩
      cases hrows
      exact hq
  refine ⟨⟨?_, ?_, hσ.disjoint⟩, ?_⟩
  · intro c k a hd hl
    rcases hlive c k a hl with hold | ⟨rfl, -, hq⟩
    · rcases hσ.books c k a hd hold with hb | hr | ⟨q, hq, hqk⟩
      · exact .inl hb
      · exact .inr (.inl hr)
      · have hc : c ≠ t.consumer := by
          rintro rfl
          rw [hpoll] at hq
          cases hq
        refine .inr (.inr ⟨q, ?_, hqk⟩)
        rw [polling_afterDispatch_of_ne _ _ hc]
        exact hq
    · refine .inr (.inr ?_)
      rw [polling_afterDispatch_self]
      exact hq
  · intro c hne
    by_cases hc : c = t.consumer
    · subst hc
      exact ⟨t.num, hop⟩
    · rw [polling_afterDispatch_of_ne _ _ hc] at hne
      exact hσ.polls c hne
  · intro u hu
    have hother : ∀ op', σ.Holds u op' → u.consumer ≠ t.consumer :=
      fun op' h hc => hop.not_holds hu hc h
    refine ⟨?_, fun h => h, fun k a h => World.exec_drawn hexec h, ?_, ?_, fun _ _ _ _ h _ => h⟩
    · intro op' h
      exact ⟨h, polling_afterDispatch_of_ne _ _ (hother op' h)⟩
    · intro k a hdrawn hn hl
      rcases hlive _ k a hl with h | ⟨-, hnew, -⟩
      · exact hn h
      · exact hnew hdrawn
    · intro op' h k a hl
      rcases hlive _ k a hl with hold | ⟨hc, -⟩
      · exact hold
      · exact absurd hc.symm (hother op' h)

/-! ### Critical sections -/

lemma covered_critical (hσ : Covered σ) (hbooks : σ.dead c = false → ∀ k a, σ.world.db.Live c k a →
      (s.run (σ.memory c)).2.Books k a ∨ (s.run (σ.memory c)).2.reconcile = true ∨
        ∃ q ∈ (σ.afterCritical c s).polling c, q.key = k ∧ q.attempt = a)
    (hpoll : (σ.afterCritical c s).polling c = σ.polling c ∨ (σ.afterCritical c s).polling c = [])
    (hdisj : ∀ k, (s.run (σ.memory c)).2.inflight.get? k = none ∨
      (s.run (σ.memory c)).2.orphans.get? k = none) :
    Covered (σ.afterCritical c s) := by
  refine ⟨?_, ?_, ?_⟩
  · intro c' k a hd hl
    by_cases hc : c' = c
    · subst hc
      rw [memory_afterCritical_self]
      exact hbooks hd k a hl
    · rw [memory_afterCritical_of_ne _ hc, polling_afterCritical_of_ne _ hc]
      exact hσ.books c' k a hd hl
  · intro c' hne
    by_cases hc : c' = c
    · subst hc
      rcases hpoll with hsame | hnil
      · exact hσ.polls c' (hsame ▸ hne)
      · exact absurd hnil hne
    · rw [polling_afterCritical_of_ne _ hc] at hne
      exact hσ.polls c' hne
  · intro c' k
    by_cases hc : c' = c
    · subst hc
      rw [memory_afterCritical_self]
      exact hdisj k
    · rw [memory_afterCritical_of_ne _ hc]
      exact hσ.disjoint c' k

lemma rely_critical_of_holds {u : Thread} (s : Critical)
    (hop : σ.Holds t op) (hu : u ≠ t) : Rely u σ (σ.afterCritical t.consumer s) := by
  have hc : ∀ op', σ.Holds u op' → u.consumer ≠ t.consumer :=
    fun op' h hc => hop.not_holds hu hc h
  refine ⟨?_, fun h => h, fun _ _ h => h, fun _ _ _ h => h, fun _ _ _ _ h => h, ?_⟩
  · exact fun op' h => ⟨h, polling_afterCritical_of_ne _ (hc op' h)⟩
  · intro op' h k a hb _
    rw [memory_afterCritical_of_ne _ (hc op' h)]
    exact hb

lemma rely_critical_of_keep (hpoll : (σ.afterCritical c s).polling c = σ.polling c)
    (hkeep : ∀ k a, (σ.memory c).Books k a → σ.world.db.Live c k a →
      (s.run (σ.memory c)).2.Books k a) (u : Thread) : Rely u σ (σ.afterCritical c s):= by
  refine ⟨?_, fun h => h, fun _ _ h => h, fun _ _ _ h => h, fun _ _ _ _ h => h, ?_⟩
  · intro op h
    refine ⟨h, ?_⟩
    by_cases hc : u.consumer = c
    · rw [hc, hpoll]
    · exact polling_afterCritical_of_ne _ hc
  · intro op h k a hb hl
    by_cases hc : u.consumer = c
    · rw [hc] at hb hl ⊢
      rw [memory_afterCritical_self]
      exact hkeep k a hb hl
    · rw [memory_afterCritical_of_ne _ hc]
      exact hb

lemma mild_lease (hσ : Covered σ) (hs : s.isLease = true) : Mild σ (σ.afterCritical c s) := by
  obtain ⟨hin, hor, hre⟩ := Critical.isLease_books hs (σ.memory c)
  have hpoll : (σ.afterCritical c s).polling c = σ.polling c := by
    cases s with
    | track | markReconcile => cases hs
    | _ => rfl
  have hbooks : ∀ k a, (s.run (σ.memory c)).2.Books k a ↔ (σ.memory c).Books k a := by
    intro k a
    unfold Consumer.Books
    rw [hin, hor]
  refine ⟨covered_critical hσ ?_ (.inl hpoll) ?_,
    rely_critical_of_keep hpoll fun k a hb _ => (hbooks k a).mpr hb⟩
  · intro hd k a hl
    rw [hbooks, hre, hpoll]
    exact hσ.books c k a hd hl
  · intro k
    rw [hin, hor]
    exact hσ.disjoint c k

lemma mild_done (hσ : Covered σ) (hended : ∀ st ∈ stamps, ¬σ.world.db.Live c st.key st.attempt) :
    Mild σ (σ.afterCritical c (.done stamps)) := by
  have hkeep : ∀ k a, (σ.memory c).Books k a → σ.world.db.Live c k a →
      ((σ.memory c).doneStamps stamps).Books k a := by
    rintro k a (⟨e, he, rfl⟩ | ho) hl
    · refine .inl ⟨e, ?_, rfl⟩
      rw [get?_inflight_doneStamps, he, filter_some_pos]
      rw [decide_eq_true_eq]
      exact fun hmem => hended _ hmem hl
    · refine .inr ?_
      rw [orphans_doneStamps]
      exact ho
  refine ⟨covered_critical hσ ?_ (.inl rfl) ?_, rely_critical_of_keep rfl hkeep⟩
  · intro hd k a hl
    rcases hσ.books c k a hd hl with hb | hr | hq
    · exact .inl (hkeep k a hb hl)
    · exact .inr (.inl ((reconcile_doneStamps stamps).trans hr))
    · exact .inr (.inr hq)
  · intro k
    show ((σ.memory c).doneStamps stamps).inflight.get? k = none ∨
      ((σ.memory c).doneStamps stamps).orphans.get? k = none
    rw [get?_inflight_doneStamps, orphans_doneStamps]
    rcases hσ.disjoint c k with h | h
    · rw [h]
      exact .inl rfl
    · exact .inr h

lemma mild_abandon (hσ : Covered σ) :
    Mild σ (σ.afterCritical c (.abandon stamps)) := by
  have hkeep : ∀ k a, (σ.memory c).Books k a → σ.world.db.Live c k a →
      ((σ.memory c).abandon stamps).Books k a := by
    rintro k a (⟨e, he, rfl⟩ | ho) _
    · by_cases hmem : ⟨k, e.attempt⟩ ∈ stamps
      · refine .inr ?_
        rw [get?_orphans_abandon, he]
        exact if_pos hmem
      · refine .inl ⟨e, ?_, rfl⟩
        rw [get?_inflight_abandon, he, filter_some_pos (by simpa using hmem)]
    · refine .inr ?_
      have hin : (σ.memory c).inflight.get? k = none := by
        rcases hσ.disjoint c k with h | h
        · exact h
        · rw [ho] at h
          cases h
      rw [get?_orphans_abandon, hin]
      exact ho
  refine ⟨covered_critical hσ ?_ (.inl rfl) ?_, rely_critical_of_keep rfl hkeep⟩
  · intro hd k a hl
    rcases hσ.books c k a hd hl with hb | hr | hq
    · exact .inl (hkeep k a hb hl)
    · exact .inr (.inl ((reconcile_abandon stamps).trans hr))
    · exact .inr (.inr hq)
  · intro k
    show ((σ.memory c).abandon stamps).inflight.get? k = none ∨
      ((σ.memory c).abandon stamps).orphans.get? k = none
    rw [get?_inflight_abandon, get?_orphans_abandon]
    cases hin : (σ.memory c).inflight.get? k with
    | none => exact .inl rfl
    | some e =>
      by_cases hmem : ⟨k, e.attempt⟩ ∈ stamps
      · exact .inl (filter_some_neg (by simpa using hmem))
      · refine .inr ((if_neg hmem).trans ?_)
        rcases hσ.disjoint c k with h | h
        · rw [hin] at h
          cases h
        · exact h

lemma good_forgetOrphans (hσ : Covered σ) (hop : σ.Holds t op)
    (hended : ∀ st ∈ stamps, ¬σ.world.db.Live t.consumer st.key st.attempt) :
    Good t σ (σ.afterCritical t.consumer (.forgetOrphans stamps)) := by
  refine ⟨covered_critical hσ ?_ (.inl rfl) ?_, fun u => rely_critical_of_holds _ hop⟩
  · intro hd k a hl
    rcases hσ.books t.consumer k a hd hl with (⟨e, he, ha⟩ | ho) | hr | hq
    · refine .inl (.inl ⟨e, ?_, ha⟩)
      show ((σ.memory t.consumer).forgetOrphans stamps).inflight.get? k = some e
      rw [inflight_forgetOrphans]
      exact he
    · refine .inl (.inr ?_)
      show ((σ.memory t.consumer).forgetOrphans stamps).orphans.get? k = some ⟨k, a⟩
      rw [get?_orphans_forgetOrphans, ho, filter_some_pos]
      rw [decide_eq_true_eq]
      exact fun hmem => hended _ hmem hl
    · exact .inr (.inl ((reconcile_forgetOrphans stamps).trans hr))
    · exact .inr (.inr hq)
  · intro k
    show ((σ.memory t.consumer).forgetOrphans stamps).inflight.get? k = none ∨
      ((σ.memory t.consumer).forgetOrphans stamps).orphans.get? k = none
    rw [inflight_forgetOrphans, get?_orphans_forgetOrphans]
    rcases hσ.disjoint t.consumer k with h | h
    · exact .inl h
    · rw [h]
      exact .inr rfl

lemma good_markReconcile (hσ : Covered σ)
    (hop : σ.Holds t op) : Good t σ (σ.afterCritical t.consumer .markReconcile) := by
  refine ⟨covered_critical hσ (fun _ _ _ _ => .inr (.inl rfl)) ?_ (hσ.disjoint t.consumer),
    fun u => rely_critical_of_holds _ hop⟩
  exact .inr (Function.update_self ..)

lemma good_clearReconcile (hσ : Covered σ) (hop : σ.Holds t op)
    (hall : ∀ k a, σ.world.db.Live t.consumer k a → (σ.memory t.consumer).Books k a) :
    Good t σ (σ.afterCritical t.consumer .clearReconcile) :=
  ⟨covered_critical hσ (fun _ k a hl => .inl (hall k a hl)) (.inl rfl)
    (hσ.disjoint t.consumer), fun _ => rely_critical_of_holds _ hop⟩

lemma good_track (hσ : Covered σ) (hop : σ.Holds t op)
    (hnd : ((σ.polling t.consumer).map Request.key).Nodup)
    (hlast : ∀ q ∈ σ.polling t.consumer, ∀ a, σ.world.db.Live t.consumer q.key a → a = q.attempt) :
    Good t σ (σ.afterCritical t.consumer (.track (σ.polling t.consumer))) := by
  have hnew : ∀ q ∈ σ.polling t.consumer,
      ((σ.memory t.consumer).track (σ.polling t.consumer)).Books q.key q.attempt :=
    fun q hq => .inl ⟨_, (track_of_mem hnd hq).1, rfl⟩
  have hpoll : (σ.afterCritical t.consumer (.track (σ.polling t.consumer))).polling t.consumer =
      [] := Function.update_self ..
  refine ⟨covered_critical hσ ?_ (.inr hpoll) ?_, fun u => rely_critical_of_holds _ hop⟩
  · intro hd k a hl
    -- a polled key is booked with its new attempt, which is the only one in force
    by_cases hk : k ∈ (σ.polling t.consumer).map Request.key
    · obtain ⟨q, hq, rfl⟩ := List.mem_map.mp hk
      rw [hlast q hq a hl]
      exact .inl (hnew q hq)
    · obtain ⟨hin, hor⟩ := track_of_not_mem (c := σ.memory t.consumer) hk
      rcases hσ.books t.consumer k a hd hl with hb | hr | ⟨q, hq, rfl, rfl⟩
      · refine .inl ?_
        unfold Consumer.Books at hb ⊢
        rw [← hin, ← hor] at hb
        exact hb
      · exact .inr (.inl ((reconcile_track _).trans hr))
      · exact .inl (hnew q hq)
  · intro k
    by_cases hk : k ∈ (σ.polling t.consumer).map Request.key
    · obtain ⟨q, hq, rfl⟩ := List.mem_map.mp hk
      exact .inr (track_of_mem hnd hq).2
    · obtain ⟨hin, hor⟩ := track_of_not_mem (c := σ.memory t.consumer) hk
      show ((σ.memory t.consumer).track (σ.polling t.consumer)).inflight.get? k = none ∨
        ((σ.memory t.consumer).track (σ.polling t.consumer)).orphans.get? k = none
      rw [hin, hor]
      exact hσ.disjoint t.consumer k

end LlmdAsync.SqlQueue
