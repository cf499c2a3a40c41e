import LlmdAsync.SqlQueue.LeaseBooks
import LlmdAsync.SqlQueue.Ownership
import LlmdAsync.SqlQueue.Stranded

/-!
# The in-flight count of a lease

A draining partition may be handed over once nothing of it is in flight, and `releaseDrained` reads
this off the count in the lease.  The count is exact as long as no request is booked under a lease
the consumer does not know of: a later heartbeat would start such a lease with the count zero.

`Counted` is the invariant.  A consumer that hears of everything it acquires (`reports`) moreover
knows every lease it owns, except during a `Rebalance`.
-/

namespace LlmdAsync.SqlQueue

open Database Cluster Consumer

variable {cfg : Owner → Config} {reports : Prop} {t : Thread}

/-- The consumer owns the partition of its queue at this epoch. -/
def Cluster.Owns (cfg : Owner → Config) (σ : Cluster) (c : Owner) (p e : ℤ) : Prop :=
  σ.world.db.Owns c ⟨(cfg c).queue, p⟩ e

/-- The current epoch of a partition of the consumer's queue. -/
def Cluster.epochOf (cfg : Owner → Config) (σ : Cluster) (c : Owner) (p : ℤ) : ℤ :=
  σ.world.db.epochOf ⟨(cfg c).queue, p⟩

/-- The consumer knows all leases it owns. -/
def Cluster.Leased (cfg : Owner → Config) (σ : Cluster) (c : Owner) : Prop :=
  ∀ p e, σ.Owns cfg c p e → (σ.memory c).leaseEpoch p = some e

/-- The entry is under a lease the consumer knows, or under one that it has lost for good. -/
def Cluster.Accounted (cfg : Owner → Config) (σ : Cluster) (c : Owner) (x : Tracked) : Prop :=
  ((σ.memory c).leaseEpoch x.partition = some x.epoch ∨ ¬σ.Owns cfg c x.partition x.epoch) ∧
    x.epoch ≤ σ.epochOf cfg c x.partition

/-- All counts are exact. -/
structure Counted (cfg : Owner → Config) (reports : Prop) (σ : Cluster) : Prop where
  exact : ∀ c, (σ.memory c).Exact
  /-- Entries are under known or lost leases. -/
  accounted : ∀ c k x, (σ.memory c).inflight.get? k = some x → σ.Accounted cfg c x
  /-- If acquisitions are reported, only a `Rebalance` in progress may own what the consumer does
  not know of. -/
  leased : reports → ∀ c, σ.dead c = false → (∀ n, σ.cycle c ≠ some (n, .rebalance)) →
    σ.Leased cfg c

/-- What a thread relies on. -/
structure Steady (cfg : Owner → Config) (t : Thread) (σ σ' : Cluster) : Prop where
  holds : ∀ op, σ.Holds t op → σ'.Holds t op ∧ σ'.polling t.consumer = σ.polling t.consumer
  free : Idle t σ → Idle t σ'
  alive : σ.dead t.consumer = false → σ'.dead t.consumer = false
  epochs : ∀ p, σ.epochOf cfg t.consumer p ≤ σ'.epochOf cfg t.consumer p
  /-- Nobody else acquires partitions for the holder of the mutex. -/
  quiet : ∀ op, σ.Holds t op → ∀ p e, σ'.Owns cfg t.consumer p e → σ.Owns cfg t.consumer p e
  /-- Nobody else books requests. -/
  entries : ∀ op, σ.Holds t op → ∀ k x, (σ'.memory t.consumer).inflight.get? k = some x →
    (σ.memory t.consumer).inflight.get? k = some x
  /-- Nobody else changes the known leases. -/
  leases : ∀ op, σ.Holds t op → ∀ p,
    (σ'.memory t.consumer).leaseEpoch p = (σ.memory t.consumer).leaseEpoch p

variable {sched : Sched} {s : Critical} {w : World} {c : Owner}

lemma Steady.refl (t : Thread) (σ : Cluster) : Steady cfg t σ σ :=
  ⟨fun _ h => ⟨h, rfl⟩, fun h => h, fun h => h, fun _ => le_refl _, fun _ _ _ _ h => h,
    fun _ _ _ _ h => h, fun _ _ _ => rfl⟩

variable {σ : Cluster}

lemma Steady.trans {σ' σ'' : Cluster} (h : Steady cfg t σ σ') (h' : Steady cfg t σ' σ'') :
    Steady cfg t σ σ'' := by
  refine ⟨?_, fun hf => h'.free (h.free hf), fun ha => h'.alive (h.alive ha),
    fun p => (h.epochs p).trans (h'.epochs p), ?_, ?_, ?_⟩
  · intro op hop
    obtain ⟨h₁, h₂⟩ := h.holds op hop
    obtain ⟨h₃, h₄⟩ := h'.holds op h₁
    exact ⟨h₃, h₄.trans h₂⟩
  · intro op hop p e ho
    exact h.quiet op hop p e (h'.quiet op (h.holds op hop).1 p e ho)
  · intro op hop k x hx
    exact h.entries op hop k x (h'.entries op (h.holds op hop).1 k x hx)
  · intro op hop p
    exact (h'.leases op (h.holds op hop).1 p).trans (h.leases op hop p)

instance (t : Thread) : IsPreorder Cluster (Steady cfg t) where
  refl := Steady.refl t
  trans _ _ _ := Steady.trans

/-- What a thread has to show for an action. -/
abbrev Fair (cfg : Owner → Config) (reports : Prop) (t : Thread) (σ σ' : Cluster) : Prop :=
  ThreadSystem.Keeps (Counted cfg reports) (Steady cfg) t σ σ'

/-- An action that disturbs nobody. -/
abbrev Gentle (cfg : Owner → Config) (reports : Prop) (σ σ' : Cluster) : Prop :=
  ThreadSystem.Spares (Counted cfg reports) (Steady cfg) σ σ'

/-! ### Mutex -/

lemma fair_setCycle {holder : Option (ℕ × CycleOp)} (hσ : Counted cfg reports σ)
    (hbefore : ∀ u, u ≠ t → u.consumer = t.consumer → Idle u σ)
    (hafter : ∀ n op, holder = some (n, op) → n = t.num)
    (hleased : reports → σ.dead t.consumer = false → (∀ n, holder ≠ some (n, .rebalance)) →
      σ.Leased cfg t.consumer) :
    Fair cfg reports t σ (σ.setCycle t.consumer holder) := by
  refine ⟨⟨hσ.exact, hσ.accounted, ?_⟩, ?_⟩
  · intro hrep c hd hc
    by_cases hct : c = t.consumer
    · subst hct
      rw [cycle_setCycle_self] at hc
      exact hleased hrep hd hc
    · rw [cycle_setCycle_of_ne _ hct] at hc
      exact hσ.leased hrep c hd hc
  · intro u hu
    refine ⟨?_, ?_, fun h => h, fun _ => le_refl _, fun _ _ _ _ h => h, fun _ _ _ _ h => h,
      fun _ _ _ => rfl⟩
    · intro op h
      have hc : u.consumer ≠ t.consumer := fun hc => hbefore u hu hc op h
      refine ⟨?_, rfl⟩
      unfold Cluster.Holds
      rw [cycle_setCycle_of_ne _ hc]
      exact h
    · intro hidle op h
      unfold Cluster.Holds at h
      by_cases hc : u.consumer = t.consumer
      · rw [hc, cycle_setCycle_self] at h
        refine hu ?_
        have hnum := hafter _ _ h
        cases t
        cases u
        cases hc
        cases hnum
        rfl
      · rw [cycle_setCycle_of_ne _ hc] at h
        exact hidle op h

/-! ### Statements -/

/-- The consumer for which a statement acquires partitions. -/
def Stmt.acquirer? : Stmt → Option Owner
  | .acquirePartitions _ owner _ _ _ => some owner
  | _ => none

lemma Cluster.owns_of_exec {s : Stmt} {rep : Reply s} (hexec : σ.world.exec sched s = some (rep, w))
    {p e : ℤ} (h : { σ with world := w }.Owns cfg c p e) :
    σ.Owns cfg c p e ∨ s.acquirer? = some c ∧ σ.epochOf cfg c p < e := by
  rcases Database.owns_of_exec (World.exec_eq_some.mp hexec).1 h with h | ⟨⟨_, _, _, rfl⟩, hlt⟩
  · exact .inl h
  · exact .inr ⟨rfl, hlt⟩

lemma Cluster.Accounted.exec {s : Stmt} {rep : Reply s}
    (hexec : σ.world.exec sched s = some (rep, w)) {x : Tracked}
    (h : σ.Accounted cfg c x) : { σ with world := w }.Accounted cfg c x := by
  have hdb := (World.exec_eq_some.mp hexec).1
  refine ⟨?_, h.2.trans (exec_epochOf_le hdb _)⟩
  rcases h.1 with hl | hno
  · exact .inl hl
  · exact .inr (not_owns_of_exec hdb h.2 hno)

lemma gentle_world (hσ : Counted cfg reports σ) {s : Stmt} {rep : Reply s}
    (hexec : σ.world.exec sched s = some (rep, w)) (hs : s.acquirer? = none) :
    Gentle cfg reports σ { σ with world := w } := by
  have howns : ∀ c p e, { σ with world := w }.Owns cfg c p e → σ.Owns cfg c p e := by
    intro c p e h
    rcases owns_of_exec hexec h with h | ⟨hacq, -⟩
    · exact h
    · rw [hs] at hacq
      cases hacq
  refine ⟨⟨hσ.exact, fun c k x hx => (hσ.accounted c k x hx).exec hexec, ?_⟩, fun u => ?_⟩
  · exact fun hrep c hd hc p e h => hσ.leased hrep c hd hc p e (howns c p e h)
  · exact ⟨fun _ h => ⟨h, rfl⟩, fun h => h, fun h => h,
      fun p => exec_epochOf_le (World.exec_eq_some.mp hexec).1 _,
      fun _ _ p e h => howns _ p e h, fun _ _ _ _ h => h, fun _ _ _ => rfl⟩

lemma fair_acquire (hσ : Counted cfg reports σ) (hop : σ.Holds t .rebalance) {queue : String}
    {now ttl : Time} {limit : ℕ} {rep : Reply (.acquirePartitions queue t.consumer now ttl limit)}
    (hexec : σ.world.exec sched (.acquirePartitions queue t.consumer now ttl limit) =
      some (rep, w)) :
    Fair cfg reports t σ { σ with world := w } := by
  have howns : ∀ c p e, c ≠ t.consumer → { σ with world := w }.Owns cfg c p e →
      σ.Owns cfg c p e := by
    intro c p e hc h
    rcases owns_of_exec hexec h with h | ⟨hacq, -⟩
    · exact h
    · exact absurd (Option.some.inj hacq).symm hc
  refine ⟨⟨hσ.exact, fun c k x hx => (hσ.accounted c k x hx).exec hexec, ?_⟩, fun u hu => ?_⟩
  · intro hrep c hd hc p e h
    have hct : c ≠ t.consumer := by
      rintro rfl
      exact hc t.num hop
    exact hσ.leased hrep c hd hc p e (howns c p e hct h)
  · exact ⟨fun _ h => ⟨h, rfl⟩, fun h => h, fun h => h,
      fun p => exec_epochOf_le (World.exec_eq_some.mp hexec).1 _,
      fun op' h p e ho => howns _ p e (fun hc => hop.not_holds hu hc h) ho, fun _ _ _ _ h => h,
      fun _ _ _ => rfl⟩

lemma fair_dispatch (hσ : Counted cfg reports σ) {op : CycleOp} (hop : σ.Holds t op)
    {queue : String} {now : Time} {limit : ℕ} {rep : List Request}
    (hexec : σ.world.exec sched (.dispatch queue t.consumer now limit) = some (rep, w)) :
    Fair cfg reports t σ (σ.afterDispatch t.consumer rep w) := by
  obtain ⟨hI, hR⟩ := gentle_world hσ hexec rfl
  refine ⟨⟨hI.exact, hI.accounted, hI.leased⟩, fun u hu => ?_⟩
  refine ⟨fun op' h => ⟨h, ?_⟩, (hR u).free, (hR u).alive, (hR u).epochs, (hR u).quiet,
    (hR u).entries, (hR u).leases⟩
  exact polling_afterDispatch_of_ne _ _ fun hc => hop.not_holds hu hc h

/-! ### Critical sections -/

lemma counted_critical (hσ : Counted cfg reports σ) (hexact : (s.run (σ.memory c)).2.Exact)
    (hentries : ∀ k x, (s.run (σ.memory c)).2.inflight.get? k = some x →
      (σ.afterCritical c s).Accounted cfg c x)
    (hleased : reports → σ.dead c = false → (∀ n, σ.cycle c ≠ some (n, .rebalance)) →
      (σ.afterCritical c s).Leased cfg c) :
    Counted cfg reports (σ.afterCritical c s) := by
  refine ⟨?_, ?_, ?_⟩
  · intro c'
    by_cases hc : c' = c
    · subst hc
      rw [memory_afterCritical_self]
      exact hexact
    · rw [memory_afterCritical_of_ne _ hc]
      exact hσ.exact c'
  · intro c' k x hx
    by_cases hc : c' = c
    · subst hc
      rw [memory_afterCritical_self] at hx
      exact hentries k x hx
    · rw [memory_afterCritical_of_ne _ hc] at hx
      obtain ⟨h₁, h₂⟩ := hσ.accounted c' k x hx
      refine ⟨?_, h₂⟩
      rw [memory_afterCritical_of_ne _ hc]
      exact h₁
  · intro hrep c' hd hcy
    by_cases hc : c' = c
    · subst hc
      exact hleased hrep hd hcy
    · intro p e ho
      rw [memory_afterCritical_of_ne _ hc]
      exact hσ.leased hrep c' hd hcy p e ho

lemma counted_unbook (hσ : Counted cfg reports σ) (hexact : (s.run (σ.memory c)).2.Exact)
    (hentries : ∀ k x, (s.run (σ.memory c)).2.inflight.get? k = some x →
      (σ.memory c).inflight.get? k = some x)
    (hleases : ∀ p, (s.run (σ.memory c)).2.leaseEpoch p = (σ.memory c).leaseEpoch p) :
    Counted cfg reports (σ.afterCritical c s) := by
  have hmem := memory_afterCritical_self (σ := σ) (c := c) s
  refine counted_critical hσ hexact ?_ ?_
  · intro k x hx
    obtain ⟨h₁, h₂⟩ := hσ.accounted c k x (hentries k x hx)
    refine ⟨?_, h₂⟩
    rw [hmem, hleases]
    exact h₁
  · intro hrep hd hcy p e ho
    rw [hmem, hleases]
    exact hσ.leased hrep c hd hcy p e ho

lemma steady_critical_of_holds {u : Thread} {op : CycleOp} (s : Critical) (hop : σ.Holds t op)
    (hu : u ≠ t) : Steady cfg u σ (σ.afterCritical t.consumer s) := by
  have hc : ∀ op', σ.Holds u op' → u.consumer ≠ t.consumer :=
    fun op' h hc => hop.not_holds hu hc h
  refine ⟨?_, fun h => h, fun h => h, fun _ => le_refl _, fun _ _ _ _ h => h, ?_, ?_⟩
  · exact fun op' h => ⟨h, polling_afterCritical_of_ne _ (hc op' h)⟩
  · intro op' h k x hx
    rw [memory_afterCritical_of_ne _ (hc op' h)] at hx
    exact hx
  · intro op' h p
    rw [memory_afterCritical_of_ne _ (hc op' h)]

lemma gentle_critical (hσ : Counted cfg reports σ)
    (hpoll : (σ.afterCritical c s).polling c = σ.polling c) (hexact : (s.run (σ.memory c)).2.Exact)
    (hentries : ∀ k x, (s.run (σ.memory c)).2.inflight.get? k = some x →
      (σ.memory c).inflight.get? k = some x)
    (hleases : ∀ p, (s.run (σ.memory c)).2.leaseEpoch p = (σ.memory c).leaseEpoch p) :
    Gentle cfg reports σ (σ.afterCritical c s) := by
  have hmem := memory_afterCritical_self (σ := σ) (c := c) s
  refine ⟨counted_unbook hσ hexact hentries hleases, fun u => ?_⟩
  refine ⟨?_, fun h => h, fun h => h, fun _ => le_refl _, fun _ _ _ _ h => h, ?_, ?_⟩
  · intro op h
    refine ⟨h, ?_⟩
    by_cases hc : u.consumer = c
    · rw [hc, hpoll]
    · exact polling_afterCritical_of_ne _ hc
  · intro op h k x hx
    by_cases hc : u.consumer = c
    · rw [hc, hmem] at hx
      rw [hc]
      exact hentries k x hx
    · rw [memory_afterCritical_of_ne _ hc] at hx
      exact hx
  · intro op h p
    by_cases hc : u.consumer = c
    · rw [hc, hmem, hleases]
    · rw [memory_afterCritical_of_ne _ hc]

lemma gentle_keepsLeases (hσ : Counted cfg reports σ) (hs : s.keepsLeases = true)
    (hmark : s ≠ .markReconcile) :
    Gentle cfg reports σ (σ.afterCritical c s) := by
  obtain ⟨hin, hle, hex⟩ := Critical.keepsLeases_spec hs (c := σ.memory c)
  refine gentle_critical hσ ?_ (hex (hσ.exact c)) (fun k x hx => hin ▸ hx) hle
  cases s with
  | track => cases hs
  | markReconcile => exact absurd rfl hmark
  | _ => rfl

lemma gentle_done {stamps : List Stamp} (hσ : Counted cfg reports σ) :
    Gentle cfg reports σ (σ.afterCritical c (.done stamps)) := by
  refine gentle_critical hσ rfl (exact_doneStamps stamps (hσ.exact c)) ?_
    (leaseEpoch_doneStamps stamps)
  intro k x hx
  have hx' : ((σ.memory c).doneStamps stamps).inflight.get? k = some x := hx
  rw [get?_inflight_doneStamps] at hx'
  exact (Option.filter_eq_some_iff.mp hx').1

lemma gentle_abandon {stamps : List Stamp} (hσ : Counted cfg reports σ) :
    Gentle cfg reports σ (σ.afterCritical c (.abandon stamps)) := by
  refine gentle_critical hσ rfl (exact_abandon stamps (hσ.exact c)) ?_
    (leaseEpoch_abandon stamps)
  intro k x hx
  have hx' : ((σ.memory c).abandon stamps).inflight.get? k = some x := hx
  rw [get?_inflight_abandon] at hx'
  exact (Option.filter_eq_some_iff.mp hx').1

end LlmdAsync.SqlQueue
