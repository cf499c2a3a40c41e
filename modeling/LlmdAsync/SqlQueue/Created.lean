import LlmdAsync.SqlQueue.Settling

/-!
# The partitions of a queue are created once

`Rebalance` creates the partitions of its queue once and remembers that it has (`seeded`).  Rows of
partitions never go away, and `EnsurePartitions` is the only statement that adds any.  So a consumer
that remembers is right in every reachable state, and a queue never has a partition out of range.
-/

namespace LlmdAsync.SqlQueue

open Table Cluster Consumer

/-! ### Rows come from `EnsurePartitions` -/

namespace Database

variable {db db' : Database} {sched : Sched} {s : Stmt} {rep : Reply s}

lemma exists_row_of_exec (h : db.exec sched s = some (rep, db')) {pk : PartitionKey}
    {row : PartitionRow} (hrow : db.partitions.get? pk = some row) :
    ∃ row', db'.partitions.get? pk = some row' := by
  obtain ⟨evs, -, heff⟩ := db.exec_partitionEffect h pk
  cases heff with
  | keep hkeep => exact ⟨row, hkeep.trans hrow⟩
  | create hp hp' | renew hp hp' | acquire hp hp' | drain hp hp' | release hp hp' | leave hp hp' =>
    exact ⟨_, hp'⟩

lemma Created.congr {queue : String} (h : db.Created queue)
    (hparts : db'.partitions = db.partitions) : db'.Created queue := by
  unfold Created
  rw [hparts]
  exact h

lemma Created.exec {queue : String} (h : db.Created queue)
    (hexec : db.exec sched s = some (rep, db')) : db'.Created queue := by
  intro p hp
  obtain ⟨row, hrow⟩ := h p hp
  exact exists_row_of_exec hexec hrow

lemma row_of_exec (h : db.exec sched s = some (rep, db')) {pk : PartitionKey} {row : PartitionRow}
    (hrow : db'.partitions.get? pk = some row) :
    (∃ row₀, db.partitions.get? pk = some row₀) ∨ pk.partition ∈ partitionIds := by
  obtain ⟨evs, -, heff⟩ := db.exec_partitionEffect h pk
  cases heff with
  | keep hkeep => exact .inl ⟨row, hkeep.symm.trans hrow⟩
  | @create queue p hp hp' =>
    have hdb : db' = db.ensurePartitions queue := (congrArg Prod.snd (Option.some.inj h)).symm
    rw [hdb, get?_ensurePartitions] at hp'
    rcases get?_insertMissing_cases hp' with hold | ⟨-, hnew, -⟩
    · exact .inl ⟨p, hold⟩
    · obtain ⟨n, hn, heq⟩ := mem_freshPartitions.mp hnew
      have hkey := key_of_get? hp'
      rw [heq] at hkey
      rw [← hkey]
      exact .inr hn
  | renew hp | acquire hp | drain hp | release hp | leave hp => exact .inl ⟨_, hp⟩

lemma Inside.exec {queue : String} (h : db.Inside queue)
    (hexec : db.exec sched s = some (rep, db')) : db'.Inside queue := by
  intro row hrow hq
  rcases row_of_exec hexec (mem_iff_get?.mp hrow) with ⟨row₀, hrow₀⟩ | hpart
  · have hkey := key_of_get? hrow₀
    have hpart := h row₀ (mem_of_get? hrow₀) (by rw [hkey]; exact hq)
    rwa [hkey] at hpart
  · exact hpart

end Database

lemma World.Reachable.inside {w : World} (h : w.Reachable) (queue : String) :
    w.db.Inside queue := by
  induction h with
  | refl =>
    intro row hrow
    cases hrow
  | tail _ hstep ih =>
    obtain ⟨sched, s, rep, hexec⟩ := hstep
    exact ih.exec (World.exec_eq_some.mp hexec).1

/-! ### Every run -/

variable {cfg : Owner → Config}

/-- A consumer that remembers to have created the partitions is right. -/
def Cluster.Seeded (cfg : Owner → Config) (σ : Cluster) : Prop :=
  ∀ c, (σ.memory c).seeded = true → σ.world.db.Created (cfg c).queue

/-- What has been created stays. -/
def Cluster.Grows (_ : Thread) (σ σ' : Cluster) : Prop :=
  ∀ queue, σ.world.db.Created queue → σ'.world.db.Created queue

instance (t : Thread) : IsPreorder Cluster (Cluster.Grows t) where
  refl _ _ h := h
  trans _ _ _ h h' queue hq := h' queue (h queue hq)

lemma seeded_foldl {α : Type} {f : Consumer → α → Consumer}
    (hf : ∀ m a, (f m a).seeded = m.seeded) (l : List α) (m : Consumer) :
    (l.foldl f m).seeded = m.seeded := by
  induction l generalizing m with
  | nil => rfl
  | cons a l ih => exact (ih (f m a)).trans (hf m a)

lemma seeded_run {s : Critical} (hs : s ≠ .setSeeded) (m : Consumer) :
    (s.run m).2.seeded = m.seeded := by
  cases s with
  | setSeeded => exact absurd rfl hs
  | track rows =>
    refine seeded_foldl (fun m r => ?_) rows m
    unfold trackOne
    cases m.inflight.get? r.key with
    | none | some prev => rfl
  | done stamps =>
    refine seeded_foldl (fun m stamp => ?_) stamps m
    unfold doneOne
    split
    · split <;> rfl
    · rfl
  | abandon stamps =>
    refine seeded_foldl (fun m stamp => ?_) stamps m
    unfold abandonOne
    split
    · split <;> rfl
    · rfl
  | forgetOrphans stamps =>
    obtain ⟨o, ho⟩ := m.forgetOrphans_eq stamps
    exact (congrArg seeded ho).trans rfl
  | _ => rfl

lemma spares_unseeding {t : Thread} {i : Action} (hi : i.Unseeding) {ch : Choice} {σ σ' : Cluster}
    {r : i.Reply} (hσ : σ.Seeded cfg) (hexec : exec t i ch σ = some (r, σ')) :
    ThreadSystem.Spares (Cluster.Seeded cfg) Cluster.Grows σ σ' := by
  cases i with
  | lock op =>
    obtain ⟨-, rfl⟩ := exec_lock hexec
    exact ⟨hσ, fun _ _ h => h⟩
  | unlock =>
    obtain rfl := exec_unlock hexec
    exact ⟨hσ, fun _ _ h => h⟩
  | critical s =>
    obtain ⟨-, rfl⟩ := exec_critical hexec
    refine ⟨fun c hc => hσ c ?_, fun _ _ h => h⟩
    by_cases hct : c = t.consumer
    · subst hct
      rw [memory_afterCritical_self, seeded_run fun h => hi (congrArg _ h)] at hc
      exact hc
    · rwa [memory_afterCritical_of_ne _ hct] at hc
  | call s =>
    rcases exec_call hexec with ⟨-, rfl, -⟩ | ⟨rep, w, hw, rfl, -⟩
    · exact ⟨hσ, fun _ _ h => h⟩
    · have hdb := (World.exec_eq_some.mp hw).1
      exact ⟨fun c hc => (hσ c hc).exec hdb, fun _ _ h => h.exec hdb⟩

section Safe

variable {t : Thread} {α : Type} {σ : Cluster}

/-- The code keeps every consumer right about its partitions. -/
abbrev Seeds (cfg : Owner → Config) (t : Thread) {α : Type} (p : Code α) (σ : Cluster) : Prop :=
  (system cfg).Safe .free (Cluster.Seeded cfg) Cluster.Grows (fun _ _ _ => True) t p
    (fun _ _ => True) σ

lemma seeds_unseeding {p : Code α} (hp : p.Always Action.Unseeding) : Seeds cfg t p σ := by
  refine ThreadSystem.Safe.of_always (A := fun _ => True) (fun _ _ h _ => h) ?_ hp trivial
  intro i hi σ₁ ch r σ₂ _ hσ _ hexec
  exact ⟨trivial, (spares_unseeding hi hσ hexec).keeps t, trivial⟩

lemma seeds_step {i : Action} {f : i.Reply → Code α} (hi : i.Unseeding)
    (h : ∀ σ₁ ch r σ₂, exec t i ch σ₁ = some (r, σ₂) → Seeds cfg t (f r) σ₂) :
    Seeds cfg t (Prog.perform i >>= f) σ :=
  ThreadSystem.Safe.step fun σ₁ ch r σ₂ _ hσ₁ _ hexec =>
    ⟨trivial, (spares_unseeding hi hσ₁ hexec).keeps t, h σ₁ ch r σ₂ hexec⟩

lemma seeds_ensureSeeded : Seeds cfg t (ensureSeeded (cfg t.consumer)) σ := by
  refine seeds_step (nofun) fun σ₁ ch seeded σ₂ _ => ?_
  cases seeded with
  | true => exact .pure trivial
  | false =>
    refine seeds_step (nofun) fun σ₃ ch' created σ₄ hexec => ?_
    cases created with
    | none => exact .pure trivial
    | some rep =>
      have hcreated : σ₄.world.db.Created (cfg t.consumer).queue := by
        rcases exec_call hexec with ⟨hnone, -⟩ | ⟨rep', w, hw, rfl, -⟩
        · cases hnone
        · have hdb : w.db = σ₃.world.db.ensurePartitions (cfg t.consumer).queue :=
            (congrArg Prod.snd (Option.some.inj (World.exec_eq_some.mp hw).1)).symm
          show w.db.Created _
          rw [hdb]
          exact created_seededDb (x := ⟨.new, σ₃.world.db⟩) nofun
      refine .step fun σ₅ ch'' r σ₆ hR hσ₅ _ hexec' => ?_
      change exec t (.critical .setSeeded) ch'' σ₅ = some (r, σ₆) at hexec'
      obtain ⟨-, rfl⟩ := exec_critical hexec'
      refine ⟨trivial, ⟨fun c hc => ?_, fun _ _ _ h => h⟩, ThreadSystem.Safe.pure trivial⟩
      by_cases hct : c = t.consumer
      · subst hct
        exact hR _ hcreated
      · rw [memory_afterCritical_of_ne _ hct] at hc
        exact hσ₅ c hc

lemma seeds_code (o : Op) : Seeds cfg t (o.code (cfg t.consumer) t.consumer) σ := by
  cases o with
  | rebalance now =>
    refine .bind (seeds_step nofun fun σ₁ ch r σ₂ _ => .bind (.bind ?_))
    refine seeds_ensureSeeded.weaken fun seeded σ₃ _ => ?_
    have hrest : ∀ ok : Bool, ∀ σ₄, (system cfg).Safe .free (Cluster.Seeded cfg) Cluster.Grows
        (fun _ _ _ => True) t (unlock >>= fun _ => pure ok) (fun _ σ₅ =>
          Seeds cfg t (pure ()) σ₅) σ₄ := by
      refine fun ok σ₄ => (seeds_unseeding ?_).weaken fun _ _ _ => .pure trivial
      exact .step nofun fun _ => .pure
    cases seeded with
    | false => exact .pure (hrest false σ₃)
    | true =>
      refine (seeds_unseeding ?_).weaken fun ok σ₄ _ => hrest ok σ₄
      exact (regular_afterSeeded now).mono fun _ h => h.2
  | _ =>
    refine seeds_unseeding ((regular_code fun _ h => ?_).mono fun _ h => h.2)
    cases h

end Safe

/-- In every reachable state, a consumer that remembers to have created the partitions of its queue
is right. -/
theorem Cluster.seeded_of_reachable {P : Pool Action Action.Reply Thread Cluster}
    (h : (system cfg).Reachable .free initial P) : P.state.Seeded cfg := by
  refine (ThreadSystem.Reachable.safe (E := fun _ _ => True) (fun _ _ _ _ h => h)
    ⟨fun c hc => by (cases hc), fun _ => trivial⟩ (fun t o σ _ _ _ _ => seeds_code o) ?_ h).1
  intro e σ σ' hσ _ henv
  cases e with
  | crash c =>
    cases henv
    refine ⟨hσ, fun t => ?_⟩
    split
    · exact trivial
    · exact fun _ h => h
  | client sched s =>
    simp only [system, envStep] at henv
    split at henv
    · obtain ⟨⟨rep, w⟩, hw, rfl⟩ := Option.map_eq_some_iff.mp henv
      have hdb := (World.exec_eq_some.mp hw).1
      exact ⟨fun c hc => (hσ c hc).exec hdb, fun _ _ hq => hq.exec hdb⟩
    · cases henv

end LlmdAsync.SqlQueue
