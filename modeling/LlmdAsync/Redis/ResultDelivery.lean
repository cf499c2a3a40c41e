import LlmdAsync.Redis.ResultScripts

/-!
# Durable result delivery: nothing lost, nothing delivered after its acknowledgement

Any number of consumers run the scripts of one result route in any order, while records are pushed
and time passes.  `DeliveryWorld` is the route with the server clock and the history of one run.

A run of `receiveResultScript` is a sequence of a few kinds of `Move`, none of which removes the
last record of a claim ID, and ends with at most one claim (`receive_spec`).  The invariant
`Delivered` is checked once for each kind of move.
-/

namespace LlmdAsync.Redis

open List Option Hash Route SortedSet Prod

variable {R : Type} {decode : R → Option ResultFields}

/-! ### What a receiver does -/

namespace Route

/-- The changes `receiveResultScript` makes before it claims something. -/
inductive Move (decode : R → Option ResultFields) (now : ℤ) (r : Route R) : Route R → Prop
  /-- Redis drops the key of the tombstones. -/
  | expire {e : ℤ} (he : r.tombstonesExpireAt = some e) (hlt : e < now) :
    Move decode now r { r with tombstones := .empty, tombstonesExpireAt := none }
  /-- A claim returns to the pending list. -/
  | requeue (c : String) : Move decode now r (r.requeue c)
  /-- An expired tombstone is removed. -/
  | unbury {c : String} (hle : ∀ t, Hash.hget r.tombstones c = some t → t ≤ now) :
    Move decode now r (r.removeTombstone c)
  /-- A duplicate is dropped. -/
  | suppress {p : R} {f : ResultFields} (hp : r.pending.getLast? = some p) (hf : decode p = some f)
    (hdup : (Hash.hget r.tombstones f.claimID).isSome ∨ (Hash.hget r.owners f.claimID).isSome) :
    Move decode now r r.pop

/-- How a run of `receiveResultScript` ends. -/
inductive Ends (decode : R → Option ResultFields) (owner : String) (r : Route R) :
    Received R → Route R → Prop
  | nothing : Ends decode owner r .nothing r
  | again : Ends decode owner r .again r
  | unparsable {p : R} (expiry : ℤ) (hp : r.pending.getLast? = some p) (hf : decode p = none) :
    Ends decode owner r (.unparsable p (unparsableID owner))
      (r.claim p (unparsableID owner) owner expiry)
  | result {p : R} {f : ResultFields} (expiry : ℤ) (hp : r.pending.getLast? = some p)
    (hf : decode p = some f) (ht : Hash.hget r.tombstones f.claimID = none)
    (ho : Hash.hget r.owners f.claimID = none) :
    Ends decode owner r (.result p f.claimID) (r.claim p f.claimID owner expiry)

variable {r : Route R} {now : ℤ}

lemma moves_expireKeys : Relation.ReflTransGen (Move decode now) r (r.expireKeys now) := by
  unfold expireKeys
  split
  next h =>
    obtain ⟨e, he, hlt⟩ := (any_eq_true _ _).mp h
    exact Relation.ReflTransGen.single (.expire he (of_decide_eq_true hlt))
  · exact Relation.ReflTransGen.refl

lemma moves_requeueExpired (tie : String → ℕ) :
    Relation.ReflTransGen (Move decode now) r (r.requeueExpired tie now) := by
  unfold requeueExpired
  generalize (range r.idx tie (some now) resultReclaimBatchSize).reverse.map fst = l
  induction l generalizing r with
  | nil => exact Relation.ReflTransGen.refl
  | cons c l ih => exact Relation.ReflTransGen.head (.requeue c) ih

lemma moves_cleanTombstones (tie : String → ℕ) :
    Relation.ReflTransGen (Move decode now) r (r.cleanTombstones tie now) := by
  unfold cleanTombstones
  have hle : ∀ c ∈ (range r.tombstones tie (some now)
      resultTombstoneCleanupBatchSize).map fst,
      ∀ t, hget r.tombstones c = some t → t ≤ now := by
    intro c hc t ht
    obtain ⟨⟨c, s⟩, hmem, rfl⟩ := mem_map.mp hc
    obtain ⟨hs, hbound⟩ := mem_range hmem
    rw [ht, some.injEq] at hs
    exact hs ▸ hbound now rfl
  revert hle
  generalize (range r.tombstones tie (some now)
    resultTombstoneCleanupBatchSize).map fst = l
  intro hle
  induction l generalizing r with
  | nil => exact Relation.ReflTransGen.refl
  | cons c l ih =>
    refine Relation.ReflTransGen.head (.unbury (hle c mem_cons_self)) (ih ?_)
    intro c' hc' t ht
    exact hle c' (mem_cons_of_mem c hc') t (hget_of_hdel ht).2

lemma moves_expireTombstone (c : String) :
    Relation.ReflTransGen (Move decode now) r (r.expireTombstone c now) := by
  unfold expireTombstone
  split
  next h =>
    refine Relation.ReflTransGen.single (.unbury fun t ht => ?_)
    rw [ht] at h
    exact of_decide_eq_true h
  · exact Relation.ReflTransGen.refl

lemma pending_expireTombstone (c : String) : (r.expireTombstone c now).pending = r.pending := by
  unfold expireTombstone
  split <;> rfl

lemma scan_spec (owner : String) (lease : ℤ) (n : ℕ) (r : Route R) :
    ∃ r₁, Relation.ReflTransGen (Move decode now) r r₁ ∧
      Ends decode owner r₁ (r.scan decode now owner lease n).1
        (r.scan decode now owner lease n).2 := by
  induction n generalizing r with
  | zero => exact ⟨r, Relation.ReflTransGen.refl, .again⟩
  | succ n ih =>
    cases hp : r.pending.getLast? with
    | none =>
      refine ⟨r, Relation.ReflTransGen.refl, ?_⟩
      simp only [scan, hp]
      exact .nothing
    | some p =>
      cases hf : decode p with
      | none =>
        refine ⟨r, Relation.ReflTransGen.refl, ?_⟩
        simp only [scan, hp, hf]
        exact .unparsable _ hp hf
      | some f =>
        have hmoves := @moves_expireTombstone _ decode r now f.claimID
        have hp₁ : (r.expireTombstone f.claimID now).pending.getLast? = some p := by
          rw [pending_expireTombstone]
          exact hp
        simp only [scan, hp, hf]
        by_cases ht : (hget (r.expireTombstone f.claimID now).tombstones f.claimID).isSome
        · rw [if_pos ht]
          obtain ⟨r₁, hr₁, hends⟩ := ih (r.expireTombstone f.claimID now).pop
          exact ⟨r₁, (hmoves.tail (.suppress hp₁ hf (.inl ht))).trans hr₁, hends⟩
        · rw [if_neg ht]
          by_cases ho : (hget (r.expireTombstone f.claimID now).owners f.claimID).isSome
          · rw [if_pos ho]
            obtain ⟨r₁, hr₁, hends⟩ := ih (r.expireTombstone f.claimID now).pop
            exact ⟨r₁, (hmoves.tail (.suppress hp₁ hf (.inr ho))).trans hr₁, hends⟩
          · rw [if_neg ho]
            rw [not_isSome_iff_eq_none] at ht ho
            exact ⟨_, hmoves, .result _ hp₁ hf ht ho⟩

lemma receive_spec (tie : String → ℕ) (owner : String) (lease : ℤ) (r : Route R) :
    ∃ r₁, Relation.ReflTransGen (Move decode now) r r₁ ∧
      Ends decode owner r₁ (r.receive decode tie now owner lease).1
        (r.receive decode tie now owner lease).2 := by
  have hmoves := (@moves_expireKeys _ decode r now).trans
    ((moves_requeueExpired tie).trans (moves_cleanTombstones tie))
  simp only [receive]
  split
  · exact ⟨_, hmoves, .nothing⟩
  · obtain ⟨r₁, hr₁, hends⟩ := scan_spec owner lease _
      (((r.expireKeys now).requeueExpired tie now).cleanTombstones tie now)
    exact ⟨r₁, hmoves.trans hr₁, hends⟩

lemma owners_expireKeys (r : Route R) (now : ℤ) : (r.expireKeys now).owners = r.owners := by
  unfold expireKeys
  split <;> rfl

/-- `cleanTombstones` changes nothing but the tombstones. -/
lemma cleanTombstones_same {α : Type} (get : Route R → α)
    (hget : ∀ r c, get (r.removeTombstone c) = get r) (r : Route R) (tie : String → ℕ) (now : ℤ) :
    get (r.cleanTombstones tie now) = get r :=
  foldlRecOn (motive := fun r' => get r' = get r) _ _ rfl fun r' h c _ => (hget r' c).trans h

/-- A success of `ackResultDeliveryScript` leaves a tombstone that has not expired. -/
lemma ack_leaves_tombstone {tie : String → ℕ} {c owner : String}
    (h : (r.ack tie now c owner).1 ≠ .lost) :
    ∃ t, Hash.hget (r.ack tie now c owner).2.tombstones c = some t ∧ now < t := by
  revert h
  simp only [Route.ack]
  split
  · intro _
    refine ⟨now + resultAckTombstoneTTL, hget_hset_self .., ?_⟩
    rw [resultAckTombstoneTTL]
    omega
  · split
    · intro h
      exact absurd rfl h
    next t ht =>
      split
      next hlt => exact fun _ => ⟨t, ht, hlt⟩
      · intro h
        exact absurd rfl h

lemma holds_iff {c owner : String} :
    r.holds now c owner = true ↔ Hash.hget r.owners c = some owner ∧ owner ≠ "" ∧
      ∃ e, hget r.idx c = some e ∧ now < e := by
  simp [holds, Option.any_eq_true, and_assoc]

end Route

/-! ### Runs -/

/-- What happened to a claim ID. -/
inductive DeliveryEvent where
  /-- A parsable record with the claim ID was pushed. -/
  | pushed (claimID : String)
  /-- A receiver put an unparsable record under the claim ID. -/
  | parked (claimID : String)
  /-- `ReceiveResult` returned the claim ID at the given time. -/
  | received (claimID : String) (now : ℤ)
  /-- `AckResult` succeeded, and the tombstone lasts until the given time. -/
  | acked (claimID : String) (expiry : ℤ)
deriving DecidableEq

/-- The event is a successful acknowledgement of the claim ID. -/
def DeliveryEvent.acks (c : String) : DeliveryEvent → Bool
  | .acked c' _ => c' = c
  | _ => false

/-- A route, the server time, and all that happened, oldest first. -/
structure DeliveryWorld (R : Type) where
  route : Route R
  now : ℤ
  log : List DeliveryEvent

def DeliveryWorld.initial : DeliveryWorld R := ⟨.initial, 0, []⟩

/-- One thing that can happen.  Consumers may use any owner tokens and lease times, repeat any call,
and crash between any two. -/
inductive DeliveryStep (R : Type) where
  | tick (ms : ℕ)
  | push (record : R)
  | receive (tie : String → ℕ) (owner : String) (lease : ℤ)
  | renew (claimID owner : String) (lease : ℤ)
  | ack (tie : String → ℕ) (claimID owner : String)

namespace DeliveryWorld

/-- The events of a run of `receiveResultScript`. -/
def receiveEvents (now : ℤ) : Received R → List DeliveryEvent
  | .result _ c => [.received c now]
  | .unparsable _ c => [.parked c]
  | _ => []

/-- The events of a run of `ackResultDeliveryScript`: the answers 1 and 2 are successes.  Each
leaves a tombstone (`Route.ack_leaves_tombstone`). -/
def ackEvents (c : String) (r : AckStatus × Route R) : List DeliveryEvent :=
  match r.1 with
  | .lost => []
  | _ => [.acked c ((Hash.hget r.2.tombstones c).getD 0)]

def next (decode : R → Option ResultFields) (w : DeliveryWorld R) :
    DeliveryStep R → DeliveryWorld R
  | .tick ms => { w with now := w.now + ms }
  | .push record =>
    { w with
      route := { w.route with pending := record :: w.route.pending }
      log := w.log ++ (decode record).toList.map fun f => .pushed f.claimID }
  | .receive tie owner lease =>
    let r := w.route.receive decode tie w.now owner lease
    { w with route := r.2, log := w.log ++ receiveEvents w.now r.1 }
  | .renew c owner lease => { w with route := (w.route.renew w.now c owner lease).2 }
  | .ack tie c owner =>
    let r := w.route.ack tie w.now c owner
    { w with route := r.2, log := w.log ++ ackEvents c r }

/-- Some finite run leads to this world. -/
def Reachable (decode : R → Option ResultFields) (w : DeliveryWorld R) : Prop :=
  ∃ steps : List (DeliveryStep R), steps.foldl (next decode) initial = w

/-- With this owner token, `AckResult` would drop the claim now or `RenewResult` extend it. -/
def CanSettle (w : DeliveryWorld R) (c owner : String) : Prop :=
  (∃ lease, (w.route.renew w.now c owner lease).1 = true) ∨
    ∃ tie, (w.route.ack tie w.now c owner).1 = .acked

end DeliveryWorld

/-! ### The invariant -/

/-- Some record with the claim ID is pending or claimed. -/
def Route.Keeps (decode : R → Option ResultFields) (r : Route R) (c : String) : Prop :=
  (∃ p ∈ r.pending, ∃ f, decode p = some f ∧ f.claimID = c) ∨
    ∃ p f, Hash.hget r.claimed c = some p ∧ decode p = some f ∧ f.claimID = c

/-- What is known about a route at a time, given its history. -/
structure Delivered (decode : R → Option ResultFields) (r : Route R) (now : ℤ)
    (log : List DeliveryEvent) : Prop where
  /-- Claimed records have owners, and conversely. -/
  owned : ∀ c, (Hash.hget r.claimed c).isSome = (Hash.hget r.owners c).isSome
  /-- Owners have leases, and conversely. -/
  leased : ∀ c, (Hash.hget r.owners c).isSome = (Hash.hget r.idx c).isSome
  /-- Records are claimed under their claim IDs. -/
  filed : ∀ c p, Hash.hget r.claimed c = some p →
    (∃ f, decode p = some f ∧ f.claimID = c) ∨ .parked c ∈ log
  /-- Nothing is lost before it is acknowledged. -/
  kept : ∀ c, .pushed c ∈ log → log.any (·.acks c) = false → .parked c ∉ log → r.Keeps decode c
  /-- Tombstones stand for acknowledgements. -/
  buried : ∀ c t, Hash.hget r.tombstones c = some t → log.any (·.acks c) = true
  /-- Tombstones last. -/
  lasting : ∀ c t, .acked c t ∈ log → now < t → ∃ t', Hash.hget r.tombstones c = some t' ∧ t ≤ t'
  /-- Redis keeps the key of the tombstones as long as any of them, and that is not too long. -/
  expiry : ∀ c t, Hash.hget r.tombstones c = some t →
    t ≤ now + resultAckTombstoneTTL ∧ ∃ e, r.tombstonesExpireAt = some e ∧ t ≤ e
  /-- No tombstone lasts for more than `resultAckTombstoneTTL`. -/
  bounded : ∀ c t, .acked c t ∈ log → t ≤ now + resultAckTombstoneTTL
  /-- What is received is not covered by an earlier tombstone. -/
  ordered : log.Pairwise fun a b => ∀ c t s, a = .acked c t → b = .received c s → t ≤ s

namespace Delivered

variable {r r' : Route R} {now : ℤ} {log : List DeliveryEvent}

lemma initial : Delivered decode (.initial : Route R) now [] where
  owned c := rfl
  leased c := rfl
  filed c p h := by cases h
  kept c h := by cases h
  buried c t h := by cases h
  lasting c t h := by cases h
  expiry c t h := by cases h
  bounded c t h := by cases h
  ordered := List.Pairwise.nil

lemma keeps_pending {l : List R} {p : R} (hp : l.getLast? = some p) {c : String}
    (hne : ∀ f, decode p = some f → f.claimID ≠ c)
    (h : ∃ p ∈ l, ∃ f, decode p = some f ∧ f.claimID = c) :
    ∃ p ∈ l.dropLast, ∃ f, decode p = some f ∧ f.claimID = c := by
  obtain ⟨q, hq, f, hf, hc⟩ := h
  rw [← dropLast_append_getLast? p hp, mem_append, mem_singleton] at hq
  rcases hq with hq | rfl
  · exact ⟨q, hq, f, hf, hc⟩
  · exact absurd hc (hne f hf)

lemma move (h : Delivered decode r now log) (hmove : r.Move decode now r') :
    Delivered decode r' now log := by
  cases hmove with
  | expire he hlt =>
    refine { h with buried := ?_, lasting := ?_, expiry := ?_ }
    · intro c t ht
      cases ht
    · intro c t hacked hnow
      obtain ⟨t', ht', hle⟩ := h.lasting c t hacked hnow
      obtain ⟨-, e', he', hle'⟩ := h.expiry c t' ht'
      rw [he, some.injEq] at he'
      omega
    · intro c t ht
      cases ht
  | requeue c₀ =>
    refine { h with owned := ?_, leased := ?_, filed := ?_, kept := ?_ }
    · intro c
      simp only [requeue, hget_hdel]
      split
      · rfl
      · exact h.owned c
    · intro c
      simp only [requeue, hget_hdel]
      split
      · rfl
      · exact h.leased c
    · intro c p hp
      exact h.filed c p (hget_of_hdel hp).2
    · intro c hpushed hack hpark
      rcases h.kept c hpushed hack hpark with ⟨p, hp, hf⟩ | ⟨p, f, hp, hf, hc⟩
      · exact .inl ⟨p, mem_append_left _ hp, hf⟩
      · by_cases hc₀ : c = c₀
        · subst hc₀
          refine .inl ⟨p, mem_append_right _ ?_, f, hf, hc⟩
          rw [hp]
          exact mem_singleton_self p
        · refine .inr ⟨p, f, ?_, hf, hc⟩
          rw [requeue, hget_hdel_of_ne _ hc₀]
          exact hp
  | @unbury c₀ hle =>
    refine { h with buried := ?_, lasting := ?_, expiry := ?_ }
    · intro c t ht
      exact h.buried c t (hget_of_hdel ht).2
    · intro c t hacked hnow
      obtain ⟨t', ht', hle'⟩ := h.lasting c t hacked hnow
      have hne : c ≠ c₀ := by
        rintro rfl
        have := hle t' ht'
        omega
      refine ⟨t', ?_, hle'⟩
      rw [removeTombstone, hget_hdel_of_ne _ hne]
      exact ht'
    · intro c t ht
      exact h.expiry c t (hget_of_hdel ht).2
  | @suppress p f hp hf hdup =>
    refine { h with kept := ?_ }
    intro c hpushed hack hpark
    by_cases hc : f.claimID = c
    · subst hc
      rcases hdup with ht | ho
      · obtain ⟨t, ht⟩ := isSome_iff_exists.mp ht
        rw [h.buried _ t ht] at hack
        cases hack
      · rw [← h.owned] at ho
        obtain ⟨q, hq⟩ := isSome_iff_exists.mp ho
        rcases h.filed _ q hq with ⟨g, hg, hgc⟩ | hparked
        · exact .inr ⟨q, g, hq, hg, hgc⟩
        · exact absurd hparked hpark
    · have hne : ∀ g, decode p = some g → g.claimID ≠ c := by
        intro g hg
        rw [hf, some.injEq] at hg
        exact hg ▸ hc
      exact (h.kept c hpushed hack hpark).imp_left (keeps_pending hp hne)

lemma moves (h : Delivered decode r now log)
    (hmoves : Relation.ReflTransGen (Route.Move decode now) r r') :
    Delivered decode r' now log := by
  induction hmoves with
  | refl => exact h
  | tail _ hmove ih => exact ih.move hmove

lemma claim (h : Delivered decode r now log) {p : R} {c₀ owner : String} (expiry : ℤ)
    (hp : r.pending.getLast? = some p)
    (hc₀ : (∃ f, decode p = some f ∧ f.claimID = c₀ ∧ hget r.owners c₀ = none) ∨
      (decode p = none ∧ .parked c₀ ∈ log)) :
    Delivered decode (r.claim p c₀ owner expiry) now log := by
  refine { h with owned := ?_, leased := ?_, filed := ?_, kept := ?_ }
  · intro c
    simp only [Route.claim, hget_hset]
    split
    · rfl
    · exact h.owned c
  · intro c
    simp only [Route.claim, hget_hset]
    split
    · rfl
    · exact h.leased c
  · intro c q hq
    simp only [Route.claim, hget_hset] at hq
    split at hq
    next hc =>
      cases hq
      rcases hc₀ with ⟨f, hf, hfc, -⟩ | ⟨-, hparked⟩
      · exact .inl ⟨f, hf, hfc.trans hc.symm⟩
      · exact .inr (hc ▸ hparked)
    · exact h.filed c q hq
  · intro c hpushed hack hpark
    by_cases hc : c = c₀
    · subst hc
      rcases hc₀ with ⟨f, hf, hfc, -⟩ | ⟨-, hparked⟩
      · exact .inr ⟨p, f, hget_hset_self .., hf, hfc⟩
      · exact absurd hparked hpark
    · have hne : ∀ g, decode p = some g → g.claimID ≠ c := by
        rintro g hg rfl
        rcases hc₀ with ⟨f, hf, hfc, -⟩ | ⟨hf, -⟩
        · rw [hf, some.injEq] at hg
          exact hc (hg ▸ hfc)
        · rw [hf] at hg
          cases hg
      refine (h.kept c hpushed hack hpark).imp (keeps_pending hp hne) ?_
      rintro ⟨q, g, hq, hg⟩
      refine ⟨q, g, ?_, hg⟩
      rw [Route.claim, hget_hset_of_ne _ _ hc]
      exact hq

lemma concat (h : Delivered decode r now log) {e : DeliveryEvent}
    (hpushed : ∀ c, e = .pushed c → r.Keeps decode c)
    (hacked : ∀ c t, e = .acked c t → hget r.tombstones c = some t)
    (hreceived : ∀ c s, e = .received c s → ∀ t, .acked c t ∈ log → t ≤ s) :
    Delivered decode r now (log ++ [e]) := by
  refine { h with
    filed := ?_, kept := ?_, buried := ?_, lasting := ?_, bounded := ?_, ordered := ?_ }
  · intro c p hp
    exact (h.filed c p hp).imp_right (mem_append_left _)
  · intro c hpush hack hpark
    rw [any_append, Bool.or_eq_false_iff] at hack
    rw [mem_append, not_or] at hpark
    rcases mem_append.mp hpush with hold | hnew
    · exact h.kept c hold hack.1 hpark.1
    · exact hpushed c (mem_singleton.mp hnew).symm
  · intro c t ht
    rw [any_append, h.buried c t ht, Bool.true_or]
  · intro c t hack hnow
    rcases mem_append.mp hack with hold | hnew
    · exact h.lasting c t hold hnow
    · exact ⟨t, hacked c t (mem_singleton.mp hnew).symm, le_refl t⟩
  · intro c t hack
    rcases mem_append.mp hack with hold | hnew
    · exact h.bounded c t hold
    · exact (h.expiry c t (hacked c t (mem_singleton.mp hnew).symm)).1
  · refine pairwise_append.mpr ⟨h.ordered, pairwise_singleton _ _, ?_⟩
    rintro a ha b hb c t s rfl rfl
    exact hreceived c s (mem_singleton.mp hb).symm t ha

lemma receive (h : Delivered decode r now log) (tie : String → ℕ) (owner : String) (lease : ℤ) :
    Delivered decode (r.receive decode tie now owner lease).2 now
      (log ++ DeliveryWorld.receiveEvents now (r.receive decode tie now owner lease).1) := by
  obtain ⟨r₁, hmoves, hends⟩ := @Route.receive_spec R decode now tie owner lease r
  have h₁ := h.moves hmoves
  revert hends
  generalize (r.receive decode tie now owner lease).1 = answer
  generalize (r.receive decode tie now owner lease).2 = r₂
  intro hends
  cases hends with
  | nothing | again =>
    simp only [DeliveryWorld.receiveEvents, append_nil]
    exact h₁
  | unparsable expiry hp hf =>
    have hlog := h₁.concat (e := .parked (unparsableID owner)) (nofun)
      (nofun) (nofun)
    exact hlog.claim expiry hp (.inr ⟨hf, mem_append_right _ mem_cons_self⟩)
  | @result p f expiry hp hf ht ho =>
    refine (h₁.claim expiry hp (.inl ⟨f, hf, rfl, ho⟩)).concat (nofun)
      (nofun) ?_
    rintro c s heq t hack
    cases heq
    by_contra hlt
    obtain ⟨t', ht', -⟩ := h₁.lasting _ t hack (not_le.mp hlt)
    rw [ht] at ht'
    cases ht'

lemma renew (h : Delivered decode r now log) (c₀ owner : String) (lease : ℤ) :
    Delivered decode (r.renew now c₀ owner lease).2 now log := by
  unfold Route.renew
  split
  next hholds =>
    obtain ⟨ho, -, -⟩ := holds_iff.mp hholds
    refine { h with leased := ?_ }
    intro c
    rw [hget_hset]
    split
    next hc =>
      rw [hc, ho]
      rfl
    · exact h.leased c
  · exact h

lemma bury (h : Delivered decode r now log) (c₀ : String) :
    Delivered decode (r.bury now c₀) now (log ++ [.acked c₀ (now + resultAckTombstoneTTL)]) := by
  have hself : hget (r.bury now c₀).tombstones c₀ = some (now + resultAckTombstoneTTL) :=
    hget_hset_self ..
  have hother : ∀ c, c ≠ c₀ →
      hget (r.bury now c₀).tombstones c = hget r.tombstones c :=
    fun c hc => hget_hset_of_ne _ _ hc
  have hacks : DeliveryEvent.acks c₀ (.acked c₀ (now + resultAckTombstoneTTL)) = true :=
    decide_eq_true rfl
  refine ⟨?_, ?_, ?_, ?_, ?_, ?_, ?_, ?_, ?_⟩
  · intro c
    simp only [Route.bury, hget_hdel]
    split
    · rfl
    · exact h.owned c
  · intro c
    simp only [Route.bury, hget_hdel]
    split
    · rfl
    · exact h.leased c
  · intro c p hp
    exact (h.filed c p (hget_of_hdel hp).2).imp_right (mem_append_left _)
  · intro c hpush hack hpark
    rw [any_append, Bool.or_eq_false_iff, any_cons, Bool.or_eq_false_iff] at hack
    have hc : c ≠ c₀ := by
      rintro rfl
      rw [hacks] at hack
      cases hack.2.1
    have hold : .pushed c ∈ log := by
      simpa using hpush
    refine (h.kept c hold hack.1 fun hp => hpark (mem_append_left _ hp)).imp_right ?_
    rintro ⟨p, f, hp, hf⟩
    refine ⟨p, f, ?_, hf⟩
    rw [Route.bury, hget_hdel_of_ne _ hc]
    exact hp
  · intro c t ht
    by_cases hc : c = c₀
    · rw [any_append, any_cons, hc, hacks, Bool.true_or, Bool.or_true]
    · rw [hother c hc] at ht
      rw [any_append, h.buried c t ht, Bool.true_or]
  · intro c t hack hnow
    by_cases hc : c = c₀
    · subst hc
      refine ⟨_, hself, ?_⟩
      rcases mem_append.mp hack with hold | hnew
      · exact h.bounded c t hold
      · cases mem_singleton.mp hnew
        exact le_refl _
    · rw [hother c hc]
      rcases mem_append.mp hack with hold | hnew
      · exact h.lasting c t hold hnow
      · cases mem_singleton.mp hnew
        exact absurd rfl hc
  · intro c t ht
    by_cases hc : c = c₀
    · subst hc
      rw [hself, some.injEq] at ht
      exact ⟨le_of_eq ht.symm, _, rfl, le_of_eq ht.symm⟩
    · rw [hother c hc] at ht
      exact ⟨(h.expiry c t ht).1, _, rfl, (h.expiry c t ht).1⟩
  · intro c t hack
    rcases mem_append.mp hack with hold | hnew
    · exact h.bounded c t hold
    · cases mem_singleton.mp hnew
      exact le_refl _
  · refine pairwise_append.mpr ⟨h.ordered, pairwise_singleton _ _, ?_⟩
    rintro a - b hb c t s - rfl
    cases mem_singleton.mp hb

lemma ack (h : Delivered decode r now log) (tie : String → ℕ) (c₀ owner : String) :
    Delivered decode (r.ack tie now c₀ owner).2 now
      (log ++ DeliveryWorld.ackEvents c₀ (r.ack tie now c₀ owner)) := by
  have h₁ := h.moves (Route.moves_expireKeys.trans (Route.moves_cleanTombstones tie))
  simp only [Route.ack]
  split
  · have hself : hget (Route.bury ((r.expireKeys now).cleanTombstones tie now) now
        c₀).tombstones c₀ = some (now + resultAckTombstoneTTL) := hget_hset_self ..
    simp only [DeliveryWorld.ackEvents, hself]
    exact h₁.bury c₀
  · split
    · simp only [DeliveryWorld.ackEvents, append_nil]
      exact h₁
    next t ht =>
      split
      · simp only [DeliveryWorld.ackEvents, ht]
        refine h₁.concat (by rintro _ ⟨⟩) ?_ (by rintro _ _ ⟨⟩)
        rintro c s heq
        cases heq
        exact ht
      next hle =>
        simp only [DeliveryWorld.ackEvents, append_nil]
        refine h₁.move (.unbury fun s hs => ?_)
        rw [ht, some.injEq] at hs
        exact hs ▸ not_lt.mp hle

lemma push (h : Delivered decode r now log) (record : R) :
    Delivered decode { r with pending := record :: r.pending } now
      (log ++ (decode record).toList.map fun f => .pushed f.claimID) := by
  have h₁ : Delivered decode { r with pending := record :: r.pending } now log := by
    refine { h with kept := ?_ }
    intro c hpush hack hpark
    refine (h.kept c hpush hack hpark).imp_left ?_
    rintro ⟨p, hp, hf⟩
    exact ⟨p, mem_cons_of_mem record hp, hf⟩
  cases hf : decode record with
  | none =>
    rw [toList_none, map_nil, append_nil]
    exact h₁
  | some f =>
    refine h₁.concat ?_ (nofun) (nofun)
    rintro c heq
    cases heq
    exact .inl ⟨record, mem_cons_self, f, hf, rfl⟩

lemma tick (h : Delivered decode r now log) (ms : ℕ) : Delivered decode r (now + ms) log := by
  refine { h with lasting := ?_, expiry := ?_, bounded := ?_ }
  · intro c t hack hlt
    exact h.lasting c t hack (by omega)
  · intro c t ht
    obtain ⟨hle, hexp⟩ := h.expiry c t ht
    exact ⟨by omega, hexp⟩
  · intro c t hack
    have := h.bounded c t hack
    omega

end Delivered

lemma DeliveryWorld.Reachable.delivered {w : DeliveryWorld R} (h : w.Reachable decode) :
    Delivered decode w.route w.now w.log := by
  obtain ⟨steps, rfl⟩ := h
  suffices hrun : ∀ w : DeliveryWorld R, Delivered decode w.route w.now w.log →
      Delivered decode (steps.foldl (next decode) w).route (steps.foldl (next decode) w).now
        (steps.foldl (next decode) w).log from hrun initial Delivered.initial
  induction steps with
  | nil => exact fun w hw => hw
  | cons s steps ih =>
    intro w hw
    refine ih (w.next decode s) ?_
    cases s <;> simp only [next]
    case tick ms => exact hw.tick ms
    case push record => exact hw.push record
    case receive tie owner lease => exact hw.receive tie owner lease
    case renew c owner lease => exact hw.renew c owner lease
    case ack tie c owner => exact hw.ack tie c owner

lemma DeliveryWorld.CanSettle.owner {w : DeliveryWorld R} {c o : String} (h : w.CanSettle c o) :
    hget w.route.owners c = some o := by
  rcases h with ⟨lease, hrenew⟩ | ⟨tie, hack⟩
  · unfold renew at hrenew
    split at hrenew
    next hholds =>
      exact (holds_iff.mp hholds).1
    · cases hrenew
  · simp only [Route.ack] at hack
    split at hack
    next hholds =>
      rw [← w.route.owners_expireKeys w.now,
        ← cleanTombstones_same owners (fun _ _ => rfl) _ tie w.now]
      exact (holds_iff.mp hholds).1
    · split at hack
      · cases hack
      · split at hack <;> cases hack

/-- A success of `AckResult` is logged with the tombstone that it leaves. -/
lemma DeliveryWorld.logs_success (w : DeliveryWorld R) {tie : String → ℕ} {c o : String}
    (h : (w.route.ack tie w.now c o).1 ≠ .lost) :
    ∃ t, w.now < t ∧ Hash.hget (w.next decode (.ack tie c o)).route.tombstones c = some t ∧
      (w.next decode (.ack tie c o)).log = w.log ++ [.acked c t] := by
  obtain ⟨t, ht, hlt⟩ := Route.ack_leaves_tombstone h
  refine ⟨t, hlt, ht, ?_⟩
  cases hstatus : (w.route.ack tie w.now c o).1 with
  | lost => exact absurd hstatus h
  | acked | repeated => simp [next, ackEvents, hstatus, ht]

/-- In every run of any number of consumers: a claim ID that has been pushed and never successfully
acknowledged has a record in the pending list or in the claimed hash (unless the claim ID is, byte
for byte, one under which a receiver has put an unparsable record); every acknowledgement that
succeeds is logged and leaves a tombstone, and the claim ID is not received before it expires; at
most one owner token can acknowledge or renew it; and claimed records, owners and leases have the
same claim IDs. -/
theorem result_delivery {w : DeliveryWorld R} (h : w.Reachable decode) (c : String) :
    (.pushed c ∈ w.log → w.log.any (·.acks c) = false → .parked c ∉ w.log →
      w.route.Keeps decode c) ∧
    (∀ tie o, (w.route.ack tie w.now c o).1 ≠ .lost → ∃ t, w.now < t ∧
      Hash.hget (w.next decode (.ack tie c o)).route.tombstones c = some t ∧
      (w.next decode (.ack tie c o)).log = w.log ++ [.acked c t]) ∧
    (w.log.Pairwise fun a b => ∀ t s, a = .acked c t → b = .received c s → t ≤ s) ∧
    (∀ o o', w.CanSettle c o → w.CanSettle c o' → o = o') ∧
    (Hash.hget w.route.claimed c).isSome = (Hash.hget w.route.owners c).isSome ∧
    (Hash.hget w.route.owners c).isSome = (Hash.hget w.route.idx c).isSome := by
  have hinv := h.delivered
  refine ⟨hinv.kept c, fun _ _ => w.logs_success, ?_, ?_, hinv.owned c, hinv.leased c⟩
  · exact hinv.ordered.imp fun hab t s => hab c t s
  · intro o o' ho ho'
    exact some.inj (ho.owner.symm.trans ho'.owner)

/-- In every run, a tombstone stands for an acknowledgement and ends within `resultAckTombstoneTTL`,
not after the key of the tombstones; every acknowledgement that succeeds is logged with a tombstone
that has not expired; and it keeps one for as long as promised. -/
theorem tombstones_stand (steps : List (DeliveryStep R)) (c : String) (t : ℤ) :
    let w := steps.foldl (DeliveryWorld.next decode) .initial
    (Hash.hget w.route.tombstones c = some t → w.log.any (·.acks c) = true ∧
      t ≤ w.now + resultAckTombstoneTTL ∧ ∃ e, w.route.tombstonesExpireAt = some e ∧ t ≤ e) ∧
    (∀ tie o, (w.route.ack tie w.now c o).1 ≠ .lost → ∃ t, w.now < t ∧
      Hash.hget (w.next decode (.ack tie c o)).route.tombstones c = some t ∧
      (w.next decode (.ack tie c o)).log = w.log ++ [.acked c t]) ∧
    (.acked c t ∈ w.log → t ≤ w.now + resultAckTombstoneTTL ∧
      (w.now < t → ∃ t', Hash.hget w.route.tombstones c = some t' ∧ t ≤ t')) := by
  intro w
  have h := DeliveryWorld.Reachable.delivered (w := w) ⟨steps, rfl⟩
  exact ⟨fun ht => ⟨h.buried c t ht, h.expiry c t ht⟩, fun _ _ => w.logs_success,
    fun hack => ⟨h.bounded c t hack, h.lasting c t hack⟩⟩

/-- A result is pushed twice, received, and received again by another consumer after its lease has
expired. -/
def redeliveryRun : List (DeliveryStep (Option ResultFields)) :=
  [.push (some ⟨"r1", "t1"⟩), .push (some ⟨"r1", "t1"⟩), .receive (fun _ => 0) "o1" 1000,
    .tick 2000, .receive (fun _ => 0) "o2" 1000]

/-- After this run, the result is kept, and the second consumer is the only one that can settle
it. -/
theorem redeliveryRun_keeps :
    let w := redeliveryRun.foldl (DeliveryWorld.next id) .initial
    let c := claimKey "r1" "t1"
    w.log = [.pushed c, .pushed c, .received c 0, .received c 2000] ∧ w.route.Keeps id c ∧
      ∀ o, w.CanSettle c o → o = "o2" := by
  intro w c
  have hlog : w.log = [.pushed c, .pushed c, .received c 0, .received c 2000] := by decide +kernel
  obtain ⟨hkeeps, -, -, hsettle, -⟩ := result_delivery (w := w) ⟨redeliveryRun, rfl⟩ c
  refine ⟨hlog, hkeeps ?_ ?_ ?_, fun o ho => hsettle o "o2" ho (.inl ⟨0, by decide +kernel⟩)⟩
  · rw [hlog]
    exact mem_cons_self
  · rw [hlog]
    rfl
  · rw [hlog]
    decide

/-- The second consumer acknowledges the result, and nobody receives a duplicate that follows. -/
def acknowledgedRun : List (DeliveryStep (Option ResultFields)) :=
  redeliveryRun ++ [.ack (fun _ => 0) (claimKey "r1" "t1") "o2", .push (some ⟨"r1", "t1"⟩),
    .receive (fun _ => 0) "o3" 1000]

/-- After this run the acknowledgement has its tombstone. -/
theorem acknowledgedRun_buried :
    let w := acknowledgedRun.foldl (DeliveryWorld.next id) .initial
    let c := claimKey "r1" "t1"
    w.log = [.pushed c, .pushed c, .received c 0, .received c 2000,
        .acked c (2000 + resultAckTombstoneTTL), .pushed c] ∧
      ∃ t', Hash.hget w.route.tombstones c = some t' ∧ 2000 + resultAckTombstoneTTL ≤ t' := by
  intro w c
  have hlog : w.log = [.pushed c, .pushed c, .received c 0, .received c 2000,
      .acked c (2000 + resultAckTombstoneTTL), .pushed c] := by decide +kernel
  refine ⟨hlog, ((tombstones_stand acknowledgedRun c _).2.2 ?_).2 (by decide +kernel)⟩
  show _ ∈ w.log
  rw [hlog]
  simp

end LlmdAsync.Redis
