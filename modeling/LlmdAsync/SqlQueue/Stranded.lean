import LlmdAsync.SqlQueue.Coverage

/-!
# No stranded request: the code of a consumer

Every operation of a consumer keeps `Covered`, whatever the other threads and the store do in the
meantime.  The operations are taken apart into store calls and critical sections; what a thread
learns from one of them is kept, through the rely of `Coverage`, until the next one needs it.
-/

namespace LlmdAsync.SqlQueue

open List Option Database Cluster World Prod

variable {cfg : Owner → Config} {t : Thread}

/-- The code keeps the invariant and the other threads' rely, and ends with `Q`. -/
abbrev Covers (cfg : Owner → Config) (t : Thread) {α : Type} (p : Code α)
    (Q : α → Cluster → Prop) (σ : Cluster) : Prop :=
  Runs cfg .free Covered Rely (fun _ _ _ => True) t p Q σ

/-- The thread does not hold the mutex. -/
def Idle (t : Thread) (σ : Cluster) : Prop := ∀ op, ¬σ.Holds t op

/-- The thread holds the mutex and has booked all it has polled. -/
def Locked (t : Thread) (op : CycleOp) (σ : Cluster) : Prop :=
  σ.Holds t op ∧ σ.polling t.consumer = []

variable {σ σ' : Cluster} {op : CycleOp} {s : Stmt} {sched : Sched} {β : Type} {stamps : List Stamp}
  {notBefore a : ℤ} {now : Time} {k : Key}

lemma Rely.locked (hR : Rely t σ σ') (h : Locked t op σ) :
    Locked t op σ' :=
  ⟨(hR.holds op h.1).1, (hR.holds op h.1).2.trans h.2⟩

/-! ### Store calls and critical sections -/

variable {w : World}

lemma mild_call {rep : Reply s} (hs : s.dispatcher? = none) (hσ : Covered σ) (hK : σ.Known cfg)
    (hexec : σ.world.exec sched s = some (rep, w)) :
    Mild σ (σ.afterCall t.consumer s rep w) := by
  rw [afterCall_of_not_dispatch hs]
  exact mild_world hσ hK hexec hs

lemma covers_call (hs : s.dispatcher? = none) {f : Option (Reply s) → Code β}
    {Q : β → Cluster → Prop}
    (h : ∀ r σ', Rely t σ σ' → (∀ rep, r = some rep → ∃ σ₁ sched, Rely t σ σ₁ ∧ σ₁.Known cfg ∧
      σ₁.world.exec sched s = some (rep, σ'.world)) → Covers cfg t (f r) Q σ') :
    Covers cfg t (call s >>= f) Q σ := by
  refine Runs.call (fun σ₁ ch _ hI hK _ => ⟨trivial, fun rep w => mild_call hs hI hK⟩) ?_
  intro r σ' hR hrep _
  refine h r σ' hR fun rep hr => ?_
  obtain ⟨σ₁, sched, w, hR₁, -, hK, hw, rfl⟩ := hrep rep hr
  exact ⟨σ₁, sched, hR₁, hK, hw⟩

lemma covers_critical {s : Critical} {f : s.Reply → Code β} {Q : β → Cluster → Prop}
    (hmild : ∀ σ₁, Rely t σ σ₁ → Covered σ₁ → Mild σ₁ (σ₁.afterCritical t.consumer s))
    (h : ∀ σ₁ : Cluster, Rely t σ (σ₁.afterCritical t.consumer s) →
      Covers cfg t (f (s.run (σ₁.memory t.consumer)).1) Q (σ₁.afterCritical t.consumer s)) :
    Covers cfg t (critical s >>= f) Q σ :=
  Runs.critical (fun σ₁ hR hI => ⟨trivial, hmild σ₁ hR hI⟩) fun σ₁ _ _ hR => h σ₁ hR

lemma covers_holder {s : Critical} {f : s.Reply → Code β} {Q : β → Cluster → Prop}
    (hgood : ∀ σ₁, Rely t σ σ₁ → Covered σ₁ → Good t σ₁ (σ₁.afterCritical t.consumer s))
    (h : ∀ σ₁, Rely t σ σ₁ →
      Covers cfg t (f (s.run (σ₁.memory t.consumer)).1) Q (σ₁.afterCritical t.consumer s)) :
    Covers cfg t (critical s >>= f) Q σ := by
  refine Runs.step fun σ₁ ch r σ₂ hR hI _ _ hexec => ?_
  obtain ⟨rfl, rfl⟩ := exec_critical hexec
  exact ⟨trivial, hgood σ₁ hR hI, h σ₁ hR⟩

lemma covers_lock {f : Unit → Code β} {Q : β → Cluster → Prop}
    (h : ∀ σ', Locked t op σ' → Covers cfg t (f ()) Q σ') :
    Covers cfg t (lock op >>= f) Q σ := by
  refine Runs.step fun σ₁ ch r σ₂ hR hI _ _ hexec => ?_
  obtain ⟨hfree, rfl⟩ := exec_lock hexec
  refine ⟨trivial, good_lock hI hfree op, h _ ⟨cycle_setCycle_self _, ?_⟩⟩
  -- nothing is polled while the mutex is free
  by_contra hne
  obtain ⟨n, hn⟩ := hI.polls t.consumer hne
  rw [hfree] at hn
  cases hn

lemma covers_unlock {b : β} (hL : Locked t op σ) :
    Covers cfg t (do unlock; pure b) (fun _ => Idle t) σ := by
  refine Runs.step fun σ₁ ch r σ₂ hR hI _ _ hexec => ?_
  obtain rfl := exec_unlock hexec
  have hL₁ := hR.locked hL
  refine ⟨trivial, good_unlock hI hL₁.1 hL₁.2, ThreadSystem.Safe.pure fun op' h => ?_⟩
  unfold Cluster.Holds at h
  rw [cycle_setCycle_self] at h
  cases h

lemma covers_leaseOnly {α : Type} {p : Code α} {f : α → Code β} {Q : β → Cluster → Prop}
    (hp : p.Always (Action.LeaseOnly (cfg t.consumer).queue t.consumer))
    (h : ∀ a σ', Rely t σ σ' → Covers cfg t (f a) Q σ') : Covers cfg t (p >>= f) Q σ := by
  refine Runs.bind_always hp (fun i hi σ₁ ch r σ₂ _ hI hK _ hexec => ⟨trivial, ?_⟩) h
  cases i with
  | lock | unlock => exact hi.elim
  | critical s =>
    obtain ⟨-, rfl⟩ := exec_critical hexec
    exact mild_lease hI hi
  | call s =>
    rcases exec_call hexec with ⟨-, rfl, -⟩ | ⟨rep, w, hw, rfl, -⟩
    · exact ThreadSystem.Spares.refl hI
    · refine mild_call ?_ hI hK hw
      cases s with
      | dispatch => cases hi.2
      | _ => rfl

/-! ### Outcome writes -/

lemma covers_storeUndispatch {f : Bool → Code β} {Q : β → Cluster → Prop}
    (h : ∀ ok σ', Rely t σ σ' → (ok = true → ∀ st ∈ stamps,
      ¬σ'.world.db.Live t.consumer st.key st.attempt) → Covers cfg t (f ok) Q σ') :
    Covers cfg t (storeUndispatch t.consumer stamps notBefore >>= f) Q σ := by
  refine .bind ?_
  unfold storeUndispatch
  split
  next hnil =>
    refine .pure (h true σ (Rely.refl t σ) fun _ st hst => ?_)
    rw [hnil] at hst
    cases hst
  · refine covers_call rfl fun r σ' hR hrep => ?_
    refine .pure (h r.isSome σ' hR ?_)
    intro hsome st hst
    obtain ⟨rep, hr⟩ := isSome_iff_exists.mp hsome
    obtain ⟨σ₁, sched, -, -, hexec⟩ := hrep rep hr
    have hdb : σ₁.world.db.undispatch t.consumer.name stamps notBefore = σ'.world.db :=
      congrArg snd (some.inj (exec_eq_some.mp hexec).1)
    rw [← hdb]
    exact not_live_undispatch hst

/-- The attempts of the stamps have been drawn. -/
def Drawn (stamps : List Stamp) (σ : Cluster) : Prop :=
  ∀ st ∈ stamps, st.attempt ∈ drawnAttempts σ.world.log st.key

lemma Rely.drawn_stamps (hR : Rely t σ σ')
    (h : Drawn stamps σ) : Drawn stamps σ' := fun st hst => hR.drawn _ _ (h st hst)

lemma covers_done {b : β} {σ₀ : Cluster} (hidle : Idle t σ₀) (hR : Rely t σ₀ σ)
    (hdrawn : Drawn stamps σ)
    (hended : ∀ st ∈ stamps, ¬σ.world.db.Live t.consumer st.key st.attempt) :
    Covers cfg t (do let _ ← critical (.done stamps); pure b) (fun _ => Idle t) σ := by
  refine covers_critical ?_ fun σ₁ hR₁ => .pure ((hR.trans hR₁).free hidle)
  intro σ₁ hR₁ hI
  exact mild_done hI fun st hst => hR₁.settled _ _ (hdrawn st hst) (hended st hst)

lemma covers_undispatch (hidle : Idle t σ) (hdrawn : Drawn stamps σ) :
    Covers cfg t (undispatch t.consumer stamps notBefore) (fun _ => Idle t) σ := by
  refine covers_storeUndispatch fun ok σ' hR hended => ?_
  cases ok with
  | false =>
    exact covers_critical (fun σ₁ _ hI => mild_abandon hI) fun σ₁ hR₁ =>
      ThreadSystem.Safe.pure ((hR.trans hR₁).free hidle)
  | true => exact covers_done hidle hR (hR.drawn_stamps hdrawn) (hended rfl)

lemma covers_retry {stamp : Stamp} {envelope : String} (hidle : Idle t σ)
    (hdrawn : Drawn [stamp] σ) :
    Covers cfg t (retry t.consumer stamp notBefore envelope) (fun _ => Idle t) σ := by
  refine covers_call rfl fun r σ' hR hrep => ?_
  cases r with
  | none => exact .pure (hR.free hidle)
  | some rep =>
    obtain ⟨σ₁, sched, -, -, hexec⟩ := hrep rep rfl
    have hdb : (σ₁.world.db.retry t.consumer.name stamp notBefore envelope).2 = σ'.world.db :=
      congrArg snd (some.inj (exec_eq_some.mp hexec).1)
    refine covers_done hidle hR (hR.drawn_stamps hdrawn) ?_
    intro st hst
    rw [mem_singleton.mp hst, ← hdb]
    exact not_live_retry

lemma covers_ack {cs : List Completion} {createdAt : ℤ} (hidle : Idle t σ)
    (hdrawn : Drawn (cs.map Completion.stamp) σ) :
    Covers cfg t (ack t.consumer cs createdAt) (fun _ => Idle t) σ := by
  refine .bind ?_
  unfold storeAck
  split
  next hnil =>
    refine .pure (covers_done hidle (Rely.refl t σ) hdrawn ?_)
    rw [hnil]
    exact nofun
  · refine covers_call rfl fun r σ' hR hrep => ?_
    cases r with
    | none => exact .pure (.pure (hR.free hidle))
    | some rep =>
      obtain ⟨σ₁, sched, hR₁, hK, hexec⟩ := hrep rep rfl
      have hdb : (σ₁.world.db.ack t.consumer.name cs createdAt).2 = σ'.world.db :=
        congrArg snd (some.inj (exec_eq_some.mp hexec).1)
      refine .pure (covers_done hidle hR (hR.drawn_stamps hdrawn) ?_)
      intro st hst
      obtain ⟨comp, hcomp, rfl⟩ := mem_map.mp hst
      rw [← hdb]
      refine not_live_ack hcomp fun comp' hcomp' hkey hl => ?_
      have hd := hR₁.drawn_stamps hdrawn _ (mem_map_of_mem hcomp')
      exact hK.reachable.le_of_live hl (hkey ▸ hd)

/-! ### `Poll` -/

lemma World.dispatch_spec {w' : World} {queue : String} {owner : Owner} {limit : ℕ}
    {rep : List Request} (h : w.exec sched (.dispatch queue owner now limit) = some (rep, w')) :
    (rep.map Request.key).Nodup ∧ ∀ q ∈ rep, ∀ c a, w'.db.Live c q.key a → a = q.attempt:= by
  have hx := some.inj (exec_eq_some.mp h).1
  have hrep : (w.db.dispatch sched queue owner.name now limit).1 = rep := congrArg fst hx
  have hdb : (w.db.dispatch sched queue owner.name now limit).2 = w'.db := congrArg snd hx
  refine ⟨hrep ▸ nodup_map_key_dispatch .., ?_⟩
  rintro q hq c a ⟨r, p, hr, -, -, -, -, rfl⟩
  rw [← hrep, mem_dispatch, hdb, hr] at hq
  have hq' : r.toRequest = q := some.inj hq.2
  rw [← hq']
  rfl

lemma covers_poll {limit : ℕ} :
    Covers cfg t (poll (cfg t.consumer) t.consumer now limit) (fun _ => Idle t) σ := by
  refine covers_lock fun σ' hL => ?_
  refine Runs.step fun σ₁ ch r σ₂ hR hI hK _ hexec => ?_
  have hL₁ := hR.locked hL
  have hgood : Good t σ₁ σ₂ ∧ σ₂.Holds t .poll := by
    rcases exec_call hexec with ⟨-, rfl, -⟩ | ⟨rep, w, hw, rfl, -⟩
    · exact ⟨⟨hI, fun u _ => Rely.refl u σ₂⟩, hL₁.1⟩
    · exact ⟨good_dispatch hI hK hL₁.1 hL₁.2 hw, hL₁.1⟩
  refine ⟨trivial, hgood.1, ?_⟩
  cases r with
  | none =>
    refine covers_holder (fun σ₃ hR₃ hI₃ => good_markReconcile hI₃ (hR₃.holds _ hgood.2).1) ?_
    intro σ₃ hR₃
    exact covers_unlock ⟨(hR₃.holds _ hgood.2).1, Function.update_self ..⟩
  | some rows =>
    obtain ⟨w, hw, rfl⟩ := exec_dispatch hexec
    obtain ⟨hnd, hlast⟩ := dispatch_spec hw
    have hpoll : ∀ σ₃, Rely t (σ₁.afterDispatch t.consumer rows w) σ₃ →
        σ₃.Holds t .poll ∧ σ₃.polling t.consumer = rows := by
      intro σ₃ hR₃
      obtain ⟨hop, hsame⟩ := hR₃.holds _ hgood.2
      exact ⟨hop, hsame.trans (polling_afterDispatch_self ..)⟩
    refine covers_holder ?_ fun σ₃ hR₃ =>
      covers_unlock ⟨(hpoll σ₃ hR₃).1, Function.update_self ..⟩
    intro σ₃ hR₃ hI₃
    obtain ⟨hop, hsame⟩ := hpoll σ₃ hR₃
    have := good_track hI₃ hop (hsame.symm ▸ hnd) ?_
    · rwa [hsame] at this
    · intro q hq a hl
      exact hlast q (hsame ▸ hq) _ a (hR₃.quiet _ hgood.2 _ _ hl)

/-! ### `Rebalance` and `Close` -/

lemma Rely.not_live (hR : Rely t σ σ') (hop : σ.Holds t op) (h : ¬σ.world.db.Live t.consumer k a) :
    ¬σ'.world.db.Live t.consumer k a := fun hl => h (hR.quiet op hop k a hl)

lemma covers_undispatchOrphans {f : Bool → Code β} {Q : β → Cluster → Prop} (hL : Locked t op σ)
    (h : ∀ ok σ', Locked t op σ' → Covers cfg t (f ok) Q σ') :
    Covers cfg t (undispatchOrphans t.consumer >>= f) Q σ := by
  refine .bind ?_
  refine covers_critical (fun _ _ hI => mild_lease hI rfl) fun σ₁ hR₁ => ?_
  have hL₁ := hR₁.locked hL
  refine covers_storeUndispatch fun ok σ₂ hR₂ hended => ?_
  have hL₂ := hR₂.locked hL₁
  cases ok with
  | false => exact .pure (h false σ₂ hL₂)
  | true =>
    refine covers_holder ?_ fun σ₃ hR₃ => .pure (h true _ (hR₃.locked hL₂))
    intro σ₃ hR₃ hI₃
    exact good_forgetOrphans hI₃ (hR₃.locked hL₂).1 fun st hst =>
      hR₃.not_live hL₂.1 (hended rfl st hst)

lemma Cluster.Known.mem_inFlight (hK : σ.Known cfg) {c : Owner}
    (hl : σ.world.db.Live c k a) : ⟨k, a⟩ ∈ σ.world.db.inFlight (cfg c).queue c.name := by
  refine Database.mem_inFlight.mpr ⟨hl, ?_⟩
  obtain ⟨r, p, hr, hp, ho, -⟩ := hl
  exact ⟨r, hr, hK.own_queue c _ p hp ho⟩

lemma covers_inFlight {f : Option (List Stamp) → Code β} {Q : β → Cluster → Prop}
    (h : ∀ r σ', Rely t σ σ' → (∀ stamped, r = some stamped → ∀ k a,
      σ'.world.db.Live t.consumer k a → ⟨k, a⟩ ∈ stamped) → Covers cfg t (f r) Q σ') :
    Covers cfg t (call (.inFlight (cfg t.consumer).queue t.consumer) >>= f) Q σ := by
  refine covers_call rfl fun r σ' hR hrep => h r σ' hR ?_
  intro stamped hr k a hl
  obtain ⟨σ₁, sched, -, hK, hexec⟩ := hrep stamped hr
  have hx := some.inj (exec_eq_some.mp hexec).1
  have hst : σ₁.world.db.inFlight (cfg t.consumer).queue t.consumer.name = stamped :=
    congrArg fst hx
  have hdb : σ₁.world.db = σ'.world.db := congrArg snd hx
  rw [← hst]
  exact hK.mem_inFlight (hdb ▸ hl)

lemma Consumer.books_of_not_mem_untracked {m : Consumer} {stamped : List Stamp}
    (h : ⟨k, a⟩ ∈ stamped) (hnot : ⟨k, a⟩ ∉ m.untracked stamped) : m.Books k a := by
  rw [Consumer.untracked, mem_filter, not_and] at hnot
  cases hin : m.inflight.get? k with
  | none =>
    rw [hin] at hnot
    exact absurd rfl (hnot h)
  | some e =>
    rw [hin] at hnot
    have he : e.attempt = a := by simpa using hnot h
    exact .inl ⟨e, hin, he⟩

lemma covers_reconcileInFlight {f : Bool → Code β} {Q : β → Cluster → Prop} (hL : Locked t op σ)
    (h : ∀ ok σ', Locked t op σ' → Covers cfg t (f ok) Q σ') :
    Covers cfg t (reconcileInFlight (cfg t.consumer) t.consumer >>= f) Q σ := by
  refine .bind ?_
  refine covers_critical (fun _ _ hI => mild_lease hI rfl) fun σ₁ hR₁ => ?_
  have hL₁ := hR₁.locked hL
  split
  · exact .pure (h true _ hL₁)
  · refine covers_inFlight fun r σ₂ hR₂ hall => ?_
    have hL₂ := hR₂.locked hL₁
    cases r with
    | none => exact .pure (h false σ₂ hL₂)
    | some stamped =>
      refine covers_critical (fun _ _ hI => mild_lease hI rfl) fun σ₃ hR₃ => ?_
      have hL₃ := hR₃.locked hL₂
      refine covers_storeUndispatch fun ok σ₄ hR₄ hended => ?_
      have hL₄ := hR₄.locked hL₃
      cases ok with
      | false => exact .pure (h false σ₄ hL₄)
      | true =>
        refine covers_holder ?_ fun σ₅ hR₅ => .pure (h true _ (hR₅.locked hL₄))
        intro σ₅ hR₅ hI₅
        refine good_clearReconcile hI₅ (hR₅.locked hL₄).1 fun k a hl => ?_
        have hl₄ := hR₅.quiet _ hL₄.1 k a hl
        have hl₃ := hR₄.quiet _ hL₃.1 k a hl₄
        refine (hR₄.trans hR₅).booked _ hL₃.1 k a ?_ hl
        have hmem := hall stamped rfl k a (hR₃.quiet _ hL₂.1 k a hl₃)
        rw [memory_afterCritical_self]
        exact Consumer.books_of_not_mem_untracked hmem fun hun => hended rfl _ hun hl₄

lemma covers_rebalance :
    Covers cfg t (rebalance (cfg t.consumer) t.consumer now) (fun _ => Idle t) σ := by
  refine covers_lock fun σ₁ hL₁ => .bind ?_
  refine covers_leaseOnly always_ensureSeeded fun seeded σ₂ hR₂ => ?_
  have hL₂ := hR₂.locked hL₁
  cases seeded with
  | false => exact .pure (covers_unlock hL₂)
  | true =>
    refine covers_undispatchOrphans hL₂ fun undispatched σ₃ hL₃ => ?_
    refine covers_reconcileInFlight hL₃ fun reconciled σ₄ hL₄ => ?_
    refine covers_leaseOnly ((lease_renewAndBalance now).mono fun _ h => h.1)
      fun balanced σ₅ hR₅ => ?_
    exact .pure (covers_unlock (hR₅.locked hL₄))

lemma covers_close :
    Covers cfg t (close (cfg t.consumer) t.consumer) (fun _ => Idle t) σ := by
  refine covers_lock fun σ₁ hL₁ => ?_
  refine covers_undispatchOrphans hL₁ fun undispatched σ₂ hL₂ => ?_
  refine covers_call rfl fun r σ₃ hR₃ _ => ?_
  have hL₃ := hR₃.locked hL₂
  cases r with
  | none => exact covers_unlock hL₃
  | some _ =>
    refine covers_critical (fun _ _ hI => mild_lease hI rfl) fun σ₄ hR₄ => ?_
    exact covers_unlock (hR₄.locked hL₃)

/-! ### Every run -/

lemma World.drawn_of_hasDispatched {st : Stamp} (h : w.hasDispatched st = true) :
    st.attempt ∈ drawnAttempts w.log st.key := by
  rw [World.hasDispatched, List.any_eq_true] at h
  obtain ⟨e, he, hst⟩ := h
  cases e with
  | dispatched owner q =>
    rw [decide_eq_true_eq] at hst
    subst hst
    exact mem_filterMap.mpr ⟨_, he, if_pos rfl⟩
  | _ => cases hst

lemma covers_code {o : Op} (hidle : Idle t σ) (hdrawn : Drawn o.stamps σ) :
    Covers cfg t (o.code (cfg t.consumer) t.consumer) (fun _ => Idle t) σ := by
  cases o with
  | poll now limit => exact .bind covers_poll
  | ack cs createdAt => exact .bind (covers_ack hidle hdrawn)
  | retry stamp notBefore envelope => exact .bind (covers_retry hidle hdrawn)
  | undispatch stamps | defer stamps notBefore => exact .bind (covers_undispatch hidle hdrawn)
  | abandon stamps =>
    exact covers_critical (fun σ₁ _ hI => mild_abandon hI) fun σ₁ hR =>
      ThreadSystem.Safe.pure (hR.free hidle)
  | stop =>
    exact covers_critical (fun σ₁ _ hI => mild_lease hI rfl) fun σ₁ hR =>
      ThreadSystem.Safe.pure (hR.free hidle)
  | rebalance now => exact .bind covers_rebalance
  | close => exact .bind covers_close

lemma covered_crash (hσ : Covered σ) (c : Owner) :
    Covered (σ.crash c) ∧
      ∀ t : Thread, if t.consumer = c then Idle t (σ.crash c) else Rely t σ (σ.crash c) := by
  refine ⟨⟨?_, ?_, hσ.disjoint⟩, ?_⟩
  · intro c' k a hd hl
    have hc : c' ≠ c := by
      rintro rfl
      rw [dead_crash_self] at hd
      cases hd
    rw [dead_crash_of_ne hc] at hd
    rw [polling_crash_of_ne hc]
    exact hσ.books c' k a hd hl
  · intro c' hne
    have hc : c' ≠ c := by
      rintro rfl
      exact hne (polling_crash_self c')
    rw [polling_crash_of_ne hc] at hne
    rw [cycle_crash_of_ne hc]
    exact hσ.polls c' hne
  · intro t
    split
    next hc =>
      intro op hop
      unfold Cluster.Holds at hop
      rw [hc, cycle_crash_self] at hop
      cases hop
    next hc =>
      have hcycle : ∀ op, (σ.crash c).Holds t op ↔ σ.Holds t op := by
        intro op
        unfold Cluster.Holds
        rw [cycle_crash_of_ne hc]
      exact ⟨fun op hop => ⟨(hcycle op).mpr hop, polling_crash_of_ne hc⟩,
        fun hf op hop => hf op ((hcycle op).mp hop), fun _ _ h => h, fun _ _ _ h => h,
        fun _ _ _ _ h => h, fun _ _ _ _ h _ => h⟩

lemma covered_client (hσ : Covered σ) (hK : σ.Known cfg)
    (h : envStep (.client sched s) σ = some σ') : Mild σ σ' := by
  simp only [envStep] at h
  split at h
  next hclient =>
    obtain ⟨⟨rep, w⟩, hw, rfl⟩ := map_eq_some_iff.mp h
    refine mild_world hσ hK hw ?_
    cases s with
    | dispatch => cases hclient
    | _ => rfl
  · cases h

lemma covered_env {e : EnvStep} (hσ : Covered σ) (hok : (sound cfg .free).env e σ)
    (henv : (system cfg).env e σ = some σ') :
    Covered σ' ∧ ∀ t, if (system cfg).kills e t then Idle t σ' else Rely t σ σ' := by
  cases e with
  | crash c =>
    cases henv
    obtain ⟨hσ', hR⟩ := covered_crash hσ c
    exact ⟨hσ', fun t => by simpa [system] using hR t⟩
  | client sched s =>
    have hmild := covered_client hσ hok.2 henv
    exact ⟨hmild.1, fun t => hmild.2 t⟩

lemma covered_initial : Covered initial := by
  refine ⟨fun c k a _ hl => ?_, fun c hne => absurd rfl hne, fun _ _ => .inl rfl⟩
  obtain ⟨r, p, hr, -⟩ := hl
  cases hr

/-- The invariant holds along every run, and a thread that holds a mutex is running. -/
theorem covered_of_reachable {P : Pool Action Action.Reply Thread Cluster}
    (h : (system cfg).Reachable .free initial P) :
    Covered P.state ∧ ∀ t op, P.state.Holds t op → (P.prog t).isSome = true := by
  have hstart : ∀ t o σ, Covered σ → Idle t σ → (sound cfg .free).start t o σ →
      (system cfg).starts t o σ = true →
      Covers cfg t ((system cfg).program t o) (fun _ => Idle t) σ := by
    intro t o σ _ hidle _ hstarts
    have hall := (Bool.and_eq_true_iff.mp hstarts).2
    refine covers_code hidle fun st hst => ?_
    exact drawn_of_hasDispatched (all_eq_true.mp hall st hst)
  obtain ⟨hσ, hsafe, -⟩ := ThreadSystem.Reachable.safe (fun _ _ _ hR hidle => hR.free hidle)
    ⟨covered_initial, fun t op hop => by cases hop⟩ hstart (fun _ _ _ => covered_env)
      (reachable_sound h)
  refine ⟨hσ, fun t op hop => ?_⟩
  have ht := hsafe t
  cases hprog : P.prog t with
  | none =>
    rw [hprog] at ht
    exact absurd hop (ht op)
  | some p => rfl

/-- Let a request be stamped with the current epoch of a partition owned by a consumer that has not
crashed.  Then the consumer has it in flight with this attempt, or remembers this attempt as an
orphan, or is going to reconcile, or a running `Poll` has just dispatched it and is about to book
it. -/
theorem stamped_row_covered {P : Pool Action Action.Reply Thread Cluster}
    (h : (system cfg).Reachable .free Cluster.initial P) {c : Owner}
    (hdead : P.state.dead c = false) {r : RequestRow} (hr : r ∈ P.state.world.db.requests.rows)
    {p : PartitionRow} (hp : P.state.world.db.partitionOfRow r = some p) (howner : p.owner = c.name)
    (hstamped : 0 < r.dispatchEpoch) (hepoch : r.dispatchEpoch = p.epoch) :
    (∃ e, (P.state.memory c).inflight.get? r.key = some e ∧ e.attempt = r.dispatchAttempt) ∨
      (P.state.memory c).orphans.get? r.key = some ⟨r.key, r.dispatchAttempt⟩ ∨
      (P.state.memory c).reconcile = true ∨
      ∃ n, P.state.cycle c = some (n, .poll) ∧ (P.prog ⟨c, n⟩).isSome = true ∧
        ∃ q ∈ P.state.polling c, q.key = r.key ∧ q.attempt = r.dispatchAttempt := by
  obtain ⟨hσ, hrunning⟩ := covered_of_reachable h
  have hlive : P.state.world.db.Live c r.key r.dispatchAttempt :=
    ⟨r, p, Table.mem_iff_get?.mp hr, hp, howner, hstamped, hepoch, rfl⟩
  rcases hσ.books c _ _ hdead hlive with (hin | hor) | hre | ⟨q, hq, hqr⟩
  · exact .inl hin
  · exact .inr (.inl hor)
  · exact .inr (.inr (.inl hre))
  · obtain ⟨n, hn⟩ := hσ.polls c (ne_nil_of_mem hq)
    exact .inr (.inr (.inr ⟨n, hn, hrunning ⟨c, n⟩ .poll hn, q, hq, hqr⟩))

/-- A request is enqueued, a consumer acquires all partitions and polls. -/
def pollRun : List (Label Thread Choice Op EnvStep) :=
  let t : Thread := ⟨⟨"dispatcher-0", first_ne⟩, 0⟩
  .env (.client Sched.plain
      (.enqueue 0 [⟨⟨"r1", "t1"⟩, "q", 0, 0, 0, 600, "", [], false, 0⟩])) ::
    (alone t (.rebalance 0) ++ alone t (.poll 0 10))

/-- After this run the request is stamped, and it is covered. -/
theorem pollRun_covered :
    let P := (system queueConfig).run (ThreadSystem.idle initial) pollRun
    let c : Owner := ⟨"dispatcher-0", by decide⟩
    (∃ e, (P.state.memory c).inflight.get? ⟨"r1", "t1"⟩ = some e ∧ e.attempt = 1) ∨
      (P.state.memory c).orphans.get? ⟨"r1", "t1"⟩ = some ⟨⟨"r1", "t1"⟩, 1⟩ ∨
      (P.state.memory c).reconcile = true ∨
      ∃ n, P.state.cycle c = some (n, .poll) ∧ (P.prog ⟨c, n⟩).isSome = true ∧
        ∃ q ∈ P.state.polling c, q.key = ⟨"r1", "t1"⟩ ∧ q.attempt = 1 :=
  stamped_row_covered (ThreadSystem.reachable_run _ _ pollRun)
    (r := ⟨⟨"r1", "t1"⟩, "q", partitionOf "r1", 600, 0, 1, 1, false, "", [], 0⟩)
    (p := ⟨⟨"q", partitionOf "r1"⟩, "dispatcher-0", 1, false, 30000⟩)
    (by decide +kernel) (by decide +kernel) (by decide +kernel) rfl (by decide) rfl

end LlmdAsync.SqlQueue
