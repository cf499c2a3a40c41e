import LlmdAsync.Redis.ResultDelivery

/-!
# Durable result delivery: whose acknowledgement succeeds

`AckResult` succeeds when its owner token holds the claim, and when the claim ID has a tombstone.  A
tombstone does not say with which owner token the claim was dropped.  `FencedWorld` keeps that
beside a run: every tombstone was left by a recorded drop (`tombstone_dropped`), so a success means
that the claim was dropped with the caller's own token, as long as nobody else's drop has left a
tombstone that is still there.
-/

namespace LlmdAsync.Redis

open List Hash DeliveryWorld

variable {R : Type} {decode : R → Option ResultFields}

/-! ### Where tombstones come from -/

namespace Route

variable {r r' : Route R} {now t : ℤ} {c : String}

lemma Move.tombstone (h : r.Move decode now r') (ht : hget r'.tombstones c = some t) :
    hget r.tombstones c = some t := by
  cases h with
  | expire he hlt => cases ht
  | requeue c₀ | suppress hp hf hdup => exact ht
  | unbury hle => exact (hget_of_hdel ht).2

lemma tombstone_of_moves (h : Relation.ReflTransGen (Move decode now) r r')
    (ht : hget r'.tombstones c = some t) : hget r.tombstones c = some t := by
  induction h with
  | refl => exact ht
  | tail _ hmove ih => exact ih (hmove.tombstone ht)

lemma tombstone_of_receive {tie : String → ℕ} {owner : String} {lease : ℤ}
    (ht : hget (r.receive decode tie now owner lease).2.tombstones c = some t) :
    hget r.tombstones c = some t := by
  obtain ⟨r₁, hmoves, hends⟩ := @receive_spec R decode now tie owner lease r
  refine tombstone_of_moves hmoves ?_
  revert ht hends
  generalize (r.receive decode tie now owner lease).1 = answer
  generalize (r.receive decode tie now owner lease).2 = r₂
  intro ht hends
  cases hends with
  | nothing | again | unparsable expiry hp hf | result expiry hp hf hnone ho => exact ht

lemma tombstone_of_swept {tie : String → ℕ}
    (ht : hget ((r.expireKeys now).cleanTombstones tie now).tombstones c = some t) :
    hget r.tombstones c = some t :=
  tombstone_of_moves ((@moves_expireKeys R (fun _ => none) r now).trans
    (moves_cleanTombstones tie)) ht

lemma tombstone_of_ack {tie : String → ℕ} {c₀ owner : String}
    (ht : hget (r.ack tie now c₀ owner).2.tombstones c = some t) :
    hget r.tombstones c = some t ∨
      ((r.ack tie now c₀ owner).1 = .acked ∧ c = c₀ ∧ t = now + resultAckTombstoneTTL) := by
  simp only [ack] at ht ⊢
  split at ht
  next hholds =>
    rw [if_pos hholds]
    simp only [bury, hget_hset] at ht
    split at ht
    next hc =>
      exact .inr ⟨rfl, hc, (Option.some.inj ht).symm⟩
    · exact .inl (tombstone_of_swept ht)
  · left
    split at ht
    · exact tombstone_of_swept ht
    · split at ht
      · exact tombstone_of_swept ht
      · exact tombstone_of_swept (hget_of_hdel ht).2

lemma tombstone_of_repeated {tie : String → ℕ} {owner : String}
    (h : (r.ack tie now c owner).1 = .repeated) :
    ∃ t, hget r.tombstones c = some t ∧ now < t := by
  simp only [ack] at h
  split at h
  · cases h
  · split at h
    · cases h
    next t ht =>
      split at h
      next hlt =>
        exact ⟨t, tombstone_of_swept ht, hlt⟩
      · cases h

end Route

/-! ### Runs with their drops -/

/-- The errors of `AckResult`. -/
inductive AckError where
  /-- `result delivery is required`. -/
  | deliveryRequired
  /-- `ErrResultDeliveryOwnershipLost`. -/
  | ownershipLost
deriving DecidableEq

/-- An acknowledgement that has removed a claim. -/
structure Drop where
  claimID : String
  /-- The owner token of the acknowledgement. -/
  owner : String
  /-- When the tombstone it leaves expires. -/
  expiry : ℤ
deriving DecidableEq

/-- A run with its drops, oldest first. -/
structure FencedWorld (R : Type) extends DeliveryWorld R where
  drops : List Drop

namespace FencedWorld

def initial : FencedWorld R := ⟨.initial, []⟩

/-- The drop that a run of `ackResultDeliveryScript` makes. -/
def ackDrops (now : ℤ) (c owner : String) : AckStatus → List Drop
  | .acked => [⟨c, owner, now + resultAckTombstoneTTL⟩]
  | _ => []

def stepDrops (w : FencedWorld R) : DeliveryStep R → List Drop
  | .ack tie c owner => ackDrops w.now c owner (w.route.ack tie w.now c owner).1
  | _ => []

def next (decode : R → Option ResultFields) (w : FencedWorld R) (s : DeliveryStep R) :
    FencedWorld R :=
  ⟨w.toDeliveryWorld.next decode s, w.drops ++ w.stepDrops s⟩

/-- Some finite run leads to this world. -/
def Reachable (decode : R → Option ResultFields) (w : FencedWorld R) : Prop :=
  ∃ steps : List (DeliveryStep R), steps.foldl (next decode) initial = w

/-- What `AckResult` makes of the answer of the script. -/
def ackAnswer : AckStatus → Except AckError Unit
  | .lost => .error .ownershipLost
  | _ => .ok ()

/-- `AckResult` of a delivery with this claim ID and owner token. -/
def ackResult (decode : R → Option ResultFields) (w : FencedWorld R) (tie : String → ℕ)
    (c owner : String) : Except AckError Unit × FencedWorld R :=
  if c = "" ∨ owner = "" then (.error .deliveryRequired, w)
  else (ackAnswer (w.route.ack tie w.now c owner).1, w.next decode (.ack tie c owner))

/-- The claim has been removed by an acknowledgement with this owner token. -/
def Dropped (w : FencedWorld R) (c owner : String) : Prop :=
  ∃ d ∈ w.drops, d.claimID = c ∧ d.owner = owner

variable {w : FencedWorld R}

lemma tombstone_dropped_next (h : ∀ c t, hget w.route.tombstones c = some t →
      ∃ d ∈ w.drops, d.claimID = c ∧ d.expiry = t) (s : DeliveryStep R) (c : String) (t : ℤ)
    (ht : hget (w.next decode s).route.tombstones c = some t) :
    ∃ d ∈ (w.next decode s).drops, d.claimID = c ∧ d.expiry = t := by
  have hold : hget w.route.tombstones c = some t →
      ∃ d ∈ (w.next decode s).drops, d.claimID = c ∧ d.expiry = t := by
    intro ht₀
    obtain ⟨d, hd, hdc⟩ := h c t ht₀
    exact ⟨d, mem_append_left _ hd, hdc⟩
  cases s with
  | tick ms | push record => exact hold ht
  | receive tie owner lease =>
    simp only [next, DeliveryWorld.next] at ht
    exact hold (Route.tombstone_of_receive ht)
  | renew c₀ owner lease =>
    refine hold ?_
    simp only [next, DeliveryWorld.next, Route.renew] at ht
    split at ht <;> exact ht
  | ack tie c₀ owner =>
    simp only [next, next] at ht
    rcases Route.tombstone_of_ack ht with ht₀ | ⟨hacked, hc, ht₀⟩
    · exact hold ht₀
    · refine ⟨⟨c₀, owner, w.now + resultAckTombstoneTTL⟩, mem_append_right _ ?_, hc.symm,
        ht₀.symm⟩
      simp only [stepDrops, hacked, ackDrops]
      exact mem_singleton_self _

lemma Reachable.tombstone_dropped (h : w.Reachable decode) (c : String) (t : ℤ)
    (ht : hget w.route.tombstones c = some t) :
    ∃ d ∈ w.drops, d.claimID = c ∧ d.expiry = t := by
  obtain ⟨steps, rfl⟩ := h
  suffices hrun : ∀ w : FencedWorld R,
      (∀ c t, hget w.route.tombstones c = some t →
        ∃ d ∈ w.drops, d.claimID = c ∧ d.expiry = t) →
      ∀ c t, hget (steps.foldl (next decode) w).route.tombstones c = some t →
        ∃ d ∈ (steps.foldl (next decode) w).drops, d.claimID = c ∧ d.expiry = t from
    hrun initial (nofun) c t ht
  clear ht
  induction steps with
  | nil => exact fun w hw => hw
  | cons s steps ih => exact fun w hw => ih (w.next decode s) (tombstone_dropped_next hw s)

end FencedWorld

open FencedWorld in
/-- In every run of any number of consumers, while nobody else's acknowledgement of the claim ID has
left a tombstone that has not expired: `AckResult` succeeds only if the claim has been removed by an
acknowledgement with the same owner token, this one or an earlier one, and otherwise it returns
`ErrResultDeliveryOwnershipLost`. -/
theorem ackResult_owner_fenced {w : FencedWorld R} (h : w.Reachable decode) (tie : String → ℕ)
    {c owner : String} (hc : c ≠ "") (ho : owner ≠ "")
    (hothers : ∀ d ∈ w.drops, d.claimID = c → w.now < d.expiry → d.owner = owner) :
    let call := w.ackResult decode tie c owner
    (call.1 = .ok () → call.2.Dropped c owner) ∧
      (¬ call.2.Dropped c owner → call.1 = .error .ownershipLost) := by
  have hcall : w.ackResult decode tie c owner =
      (ackAnswer (w.route.ack tie w.now c owner).1, w.next decode (.ack tie c owner)) :=
    if_neg (not_or.mpr ⟨hc, ho⟩)
  intro call
  have hok : call.1 = .ok () → call.2.Dropped c owner := by
    intro hok
    rw [show call = _ from hcall] at hok ⊢
    cases hstatus : (w.route.ack tie w.now c owner).1 with
    | lost =>
      rw [hstatus] at hok
      cases hok
    | acked =>
      refine ⟨⟨c, owner, w.now + resultAckTombstoneTTL⟩, mem_append_right _ ?_, rfl, rfl⟩
      simp only [stepDrops, hstatus, ackDrops]
      exact mem_singleton_self _
    | repeated =>
      obtain ⟨t, ht, hlt⟩ := Route.tombstone_of_repeated hstatus
      obtain ⟨d, hd, hdc, hdt⟩ := h.tombstone_dropped c t ht
      exact ⟨d, mem_append_left _ hd, hdc, hothers d hd hdc (hdt ▸ hlt)⟩
  refine ⟨hok, fun hnot => ?_⟩
  rw [show call = _ from hcall] at hok hnot ⊢
  cases hstatus : (w.route.ack tie w.now c owner).1 with
  | lost => rfl
  | acked | repeated =>
    rw [hstatus] at hok
    exact absurd (hok rfl) hnot

/-- A result is received, received again by another consumer after its lease has expired, and
acknowledged by that consumer. -/
def takeoverRun : List (DeliveryStep (Option ResultFields)) :=
  [.push (some ⟨"r1", "t1"⟩), .receive (fun _ => 0) "o1" 1000, .tick 2000,
    .receive (fun _ => 0) "o2" 1000, .ack (fun _ => 0) (claimKey "r1" "t1") "o2"]

/-- The second consumer can repeat its acknowledgement. -/
theorem takeoverRun_repeated :
    let w := takeoverRun.foldl (FencedWorld.next id) .initial
    let call := w.ackResult id (fun _ => 0) (claimKey "r1" "t1") "o2"
    call.1 = .ok () ∧ call.2.Dropped (claimKey "r1" "t1") "o2" := by
  intro w call
  have hok : call.1 = .ok () := by decide +kernel
  have hothers : ∀ d ∈ w.drops, d.claimID = claimKey "r1" "t1" → w.now < d.expiry →
      d.owner = "o2" := by decide +kernel
  exact ⟨hok, (ackResult_owner_fenced ⟨takeoverRun, rfl⟩ (fun _ => 0) (by decide) (by decide)
    hothers).1 hok⟩

/-- The first consumer, whose lease has expired and who has removed nothing, can acknowledge the
result as well. -/
theorem takeoverRun_stale_owner :
    let w := takeoverRun.foldl (FencedWorld.next id) .initial
    let call := w.ackResult id (fun _ => 0) (claimKey "r1" "t1") "o1"
    w.Reachable id ∧ call.1 = .ok () ∧ ¬ call.2.Dropped (claimKey "r1" "t1") "o1" := by
  intro w call
  have hdrops : call.2.drops.all fun d => decide (d.owner = "o2") := by decide +kernel
  refine ⟨⟨takeoverRun, rfl⟩, by decide +kernel, ?_⟩
  rintro ⟨d, hd, -, howner⟩
  have := of_decide_eq_true (all_eq_true.mp hdrops d hd)
  rw [howner] at this
  exact absurd this (by decide)

end LlmdAsync.Redis
