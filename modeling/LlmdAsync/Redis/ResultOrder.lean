import LlmdAsync.Redis.ResultDelivery

/-!
# Durable result delivery: the order of results

Records are pushed at one end of the pending list and popped at the other, so the list, read from
the other end, is a queue.  `receiveResultScript` puts expired claims back in front of the queue,
oldest lease first, and takes the first record (`InOrder.receive_cons`).

A batch of expired claims is put in front of everything, also of records that an earlier call has
put back.  Therefore expired results come out in the order of their leases only as long as one batch
is enough for all of them.
-/

namespace LlmdAsync.Redis

open List Option Hash Route DeliveryWorld SortedSet Prod

variable {R : Type} {decode : R → Option ResultFields}

/-- The claim ID of a record, if it can be parsed. -/
def resultID (decode : R → Option ResultFields) (p : R) : Option String :=
  (decode p).map ResultFields.claimID

/-! ### The queue of a route -/

namespace Route

variable {r : Route R} {tie : String → ℕ} {now : ℤ}

/-- The records at the popping end come first. -/
def queue (r : Route R) : List R := r.pending.reverse

lemma foldl_requeue (ids : List String) (hids : ids.Nodup) (r : Route R) :
    (ids.foldl requeue r).pending = r.pending ++ ids.filterMap (hget r.claimed) ∧
    (ids.foldl requeue r).claimed = ids.foldl hdel r.claimed ∧
    (ids.foldl requeue r).idx = ids.foldl hdel r.idx := by
  induction ids generalizing r with
  | nil => exact ⟨(append_nil _).symm, rfl, rfl⟩
  | cons c ids ih =>
    obtain ⟨hc, hids⟩ := nodup_cons.mp hids
    obtain ⟨hpending, hclaimed, hidx⟩ := ih hids (r.requeue c)
    refine ⟨?_, hclaimed, hidx⟩
    -- The other claims are found as before.
    have hothers : ids.filterMap (hget (r.requeue c).claimed) =
        ids.filterMap (hget r.claimed) := by
      refine filterMap_congr fun c' hc' => ?_
      exact hget_hdel_of_ne _ fun heq => hc (heq ▸ hc')
    rw [foldl_cons, hpending, hothers]
    cases hp : hget r.claimed c <;> simp [requeue, hp]

/-- The leases that a call finds expired and puts back, oldest first. -/
def expiredLeases (r : Route R) (tie : String → ℕ) (now : ℤ) : List (String × ℤ) :=
  SortedSet.range r.idx tie (some now) resultReclaimBatchSize

lemma requeueExpired_eq (r : Route R) (tie : String → ℕ) (now : ℤ) :
    r.requeueExpired tie now = ((r.expiredLeases tie now).reverse.map fst).foldl requeue r:= rfl

lemma nodup_expired : ((r.expiredLeases tie now).reverse.map fst).Nodup := by
  rw [map_reverse]
  exact nodup_reverse.mpr (nodup_range _ _ _ _)

lemma queue_requeueExpired : (r.requeueExpired tie now).queue =
    (r.expiredLeases tie now).filterMap (fun l => hget r.claimed l.1) ++ r.queue := by
  have hnodup : ((r.expiredLeases tie now).reverse.map fst).Nodup := nodup_expired
  have hpending := (foldl_requeue _ hnodup r).1
  rw [queue, requeueExpired_eq, hpending, reverse_append, ← filterMap_reverse,
    ← map_reverse, reverse_reverse, filterMap_map]
  rfl

lemma hget_idx_requeueExpired (c : String) : hget (r.requeueExpired tie now).idx c =
    if c ∈ (r.expiredLeases tie now).map fst then none else hget r.idx c := by
  have hnodup : ((r.expiredLeases tie now).reverse.map fst).Nodup := nodup_expired
  have hidx := (foldl_requeue _ hnodup r).2.2
  rw [requeueExpired_eq, hidx, hget_foldl_hdel, map_reverse]
  simp only [mem_reverse]

end Route

/-! ### Routes without duplicates -/

/-- A route with distinct results, none of which has been acknowledged. -/
structure InOrder (decode : R → Option ResultFields) (r : Route R) : Prop where
  /-- There are no tombstones. -/
  unburied : r.tombstones = .empty
  undated : r.tombstonesExpireAt = none
  /-- Claims, owners and leases belong together. -/
  owned : ∀ c, (Hash.hget r.owners c).isSome = (Hash.hget r.claimed c).isSome
  leased : ∀ c, (Hash.hget r.idx c).isSome = (Hash.hget r.claimed c).isSome
  /-- Records are claimed under their claim IDs. -/
  filed : ∀ c p, Hash.hget r.claimed c = some p → resultID decode p = some c
  /-- Everything in the queue can be parsed. -/
  parsable : ∀ p ∈ r.pending, (decode p).isSome = true
  /-- No claim ID occurs twice. -/
  distinct : (r.pending.map (resultID decode)).Nodup
  apart : ∀ p ∈ r.pending, ∀ c, resultID decode p = some c → Hash.hget r.claimed c = none

namespace InOrder

variable {r : Route R} {tie : String → ℕ} {now : ℤ}

lemma initial : InOrder decode (.initial : Route R) where
  unburied := rfl
  undated := rfl
  owned c := rfl
  leased c := rfl
  filed c p h := by cases h
  parsable p h := by cases h
  distinct := nodup_nil
  apart p h := by cases h

lemma requeue (h : InOrder decode r) (c : String) : InOrder decode (r.requeue c) := by
  have hpending : ∀ p ∈ (r.requeue c).pending,
      p ∈ r.pending ∨ hget r.claimed c = some p := by
    intro p hp
    rcases mem_append.mp hp with hp | hp
    · exact .inl hp
    · exact .inr (mem_toList.mp hp)
  refine ⟨h.unburied, h.undated, fun c' => ?_, fun c' => ?_, fun c' p hp => ?_, fun p hp => ?_, ?_,
    fun p hp c' hc' => ?_⟩
  · simp only [Route.requeue, hget_hdel]
    split
    · rfl
    · exact h.owned c'
  · simp only [Route.requeue, hget_hdel]
    split
    · rfl
    · exact h.leased c'
  · exact h.filed c' p (hget_of_hdel hp).2
  · rcases hpending p hp with hp | hp
    · exact h.parsable p hp
    · have hid := h.filed c p hp
      rw [resultID, map_eq_some_iff] at hid
      obtain ⟨f, hf, -⟩ := hid
      exact hf ▸ rfl
  · show ((r.pending ++ (hget r.claimed c).toList).map (resultID decode)).Nodup
    cases hc : hget r.claimed c with
    | none => simpa using h.distinct
    | some p =>
      -- No record in the queue has the claim ID of a claimed one.
      have hid : some c ∉ r.pending.map (resultID decode) := by
        intro hmem
        obtain ⟨q, hq, hqc⟩ := mem_map.mp hmem
        rw [h.apart q hq c hqc] at hc
        cases hc
      rw [toList_some, map_append, map_singleton, h.filed c p hc, nodup_append]
      refine ⟨h.distinct, nodup_singleton _, fun x hx y hy heq => ?_⟩
      obtain rfl := mem_singleton.mp hy
      exact hid (heq ▸ hx)
  · show hget (hdel r.claimed c) c' = none
    rw [hget_hdel]
    split
    · rfl
    next hne =>
      rcases hpending p hp with hp | hp
      · exact h.apart p hp c' hc'
      · rw [h.filed c p hp, some.injEq] at hc'
        exact absurd hc'.symm hne

lemma requeueExpired (h : InOrder decode r) (tie : String → ℕ) (now : ℤ) :
    InOrder decode (r.requeueExpired tie now) := by
  rw [requeueExpired_eq]
  generalize (r.expiredLeases tie now).reverse.map fst = ids
  induction ids generalizing r with
  | nil => exact h
  | cons c ids ih => exact ih (h.requeue c)

lemma claim (h : InOrder decode r) {p : R} {c : String} (hp : r.pending.getLast? = some p)
    (hc : resultID decode p = some c) (owner : String) (expiry : ℤ) :
    InOrder decode (r.claim p c owner expiry) := by
  have hpending : r.pending = r.pending.dropLast ++ [p] :=
    (dropLast_append_getLast? p hp).symm
  have hdistinct := h.distinct
  rw [hpending, map_append, map_singleton, nodup_append] at hdistinct
  have hrest : ∀ q ∈ r.pending.dropLast, q ∈ r.pending :=
    fun q hq => (dropLast_sublist _).subset hq
  refine ⟨h.unburied, h.undated, fun c' => ?_, fun c' => ?_, fun c' q hq => ?_,
    fun q hq => h.parsable q (hrest q hq), hdistinct.1, fun q hq c' hc' => ?_⟩
  · simp only [Route.claim, hget_hset]
    split
    · rfl
    · exact h.owned c'
  · simp only [Route.claim, hget_hset]
    split
    · rfl
    · exact h.leased c'
  · simp only [Route.claim, hget_hset] at hq
    split at hq
    next heq =>
      rw [← some.inj hq, heq]
      exact hc
    · exact h.filed c' q hq
  · have hne : c' ≠ c := by
      rintro rfl
      exact hdistinct.2.2 _ (mem_map_of_mem hq) _ mem_cons_self (hc'.trans hc.symm)
    simp only [Route.claim, hget_hset, hne, ↓reduceIte]
    exact h.apart q (hrest q hq) c' hc'

/-! ### One call -/

lemma receive_eq (h : InOrder decode r) (tie : String → ℕ) (now : ℤ) (owner : String) (lease : ℤ) :
    r.receive decode tie now owner lease =
      if min (r.requeueExpired tie now).pending.length resultReceiveScanBatchSize = 0 then
        (.nothing, r.requeueExpired tie now)
      else (r.requeueExpired tie now).scan decode now owner lease
        (min (r.requeueExpired tie now).pending.length resultReceiveScanBatchSize) := by
  have hkeys : r.expireKeys now = r := by
    rw [expireKeys, h.undated]
    rfl
  have hclean : (r.requeueExpired tie now).cleanTombstones tie now = r.requeueExpired tie now := by
    rw [cleanTombstones, (h.requeueExpired tie now).unburied]
    rfl
  simp only [receive, hkeys, hclean]

lemma receive_nil (h : InOrder decode r) (owner : String) (lease : ℤ)
    (hq : (r.requeueExpired tie now).queue = []) :
    r.receive decode tie now owner lease = (.nothing, r.requeueExpired tie now) := by
  have hpending : (r.requeueExpired tie now).pending = [] := reverse_eq_nil_iff.mp hq
  rw [h.receive_eq, hpending]
  rfl

lemma receive_cons (h : InOrder decode r) (owner : String) (lease : ℤ) {p : R} {q : List R}
    (hq : (r.requeueExpired tie now).queue = p :: q) :
    ∃ c, resultID decode p = some c ∧ r.receive decode tie now owner lease =
        (.result p c, (r.requeueExpired tie now).claim p c owner (now + lease)) ∧
      ((r.requeueExpired tie now).claim p c owner (now + lease)).queue = q ∧
      InOrder decode ((r.requeueExpired tie now).claim p c owner (now + lease)) := by
  have h₁ := h.requeueExpired tie now
  rw [h.receive_eq]
  generalize r.requeueExpired tie now = r₁ at hq h₁
  have hpending : r₁.pending = q.reverse ++ [p] := by
    rw [← reverse_reverse r₁.pending]
    show r₁.queue.reverse = _
    rw [hq, reverse_cons]
  have hlast : r₁.pending.getLast? = some p := by
    rw [hpending, getLast?_concat]
  have hmem : p ∈ r₁.pending := mem_of_getLast? hlast
  obtain ⟨f, hf⟩ := isSome_iff_exists.mp (h₁.parsable p hmem)
  have hid : resultID decode p = some f.claimID := by
    rw [resultID, hf]
    rfl
  refine ⟨f.claimID, hid, ?_, ?_, h₁.claim hlast hid owner _⟩
  · have hscan : ∃ n, min r₁.pending.length resultReceiveScanBatchSize = n + 1 := by
      refine Nat.exists_eq_succ_of_ne_zero ?_
      rw [hpending]
      simp [resultReceiveScanBatchSize]
    obtain ⟨n, hn⟩ := hscan
    have htombstone : r₁.expireTombstone f.claimID now = r₁ := by
      rw [expireTombstone, h₁.unburied]
      rfl
    have hfree : hget r₁.owners f.claimID = none := by
      have howned := h₁.owned f.claimID
      rw [h₁.apart p hmem f.claimID hid] at howned
      exact not_isSome_iff_eq_none.mp (by simp [howned])
    rw [hn, if_neg n.succ_ne_zero]
    simp [scan, hlast, hf, htombstone, h₁.unburied, hfree]
  · show r₁.pending.dropLast.reverse = q
    rw [hpending, dropLast_concat, reverse_reverse]

end InOrder

/-! ### Results claimed once -/

/-- The claim IDs that receivers have returned, in this order. -/
def receivedIDs (log : List DeliveryEvent) : List String :=
  log.filterMap fun
    | .received c _ => some c
    | _ => none

def unclaimed (decode : R → Option ResultFields) (log : List DeliveryEvent) (p : R) : Bool :=
  (resultID decode p).all fun c => decide (c ∉ receivedIDs log)

/-- The record that a step pushes. -/
def DeliveryStep.pushed : DeliveryStep R → Option R
  | .push record => some record
  | _ => none

def DeliveryStep.isAck : DeliveryStep R → Bool
  | .ack .. => true
  | _ => false

/-- The records are distinct results. -/
structure Distinct (decode : R → Option ResultFields) (results : List R) : Prop where
  parsable : ∀ p ∈ results, (decode p).isSome = true
  nodup : (results.map (resultID decode)).Nodup

namespace Distinct

variable {results : List R}

lemma of_concat {record : R} (h : Distinct decode (results ++ [record])) :
    Distinct decode results := by
  refine ⟨fun p hp => h.parsable p (mem_append_left _ hp), ?_⟩
  have hnodup := h.nodup
  rw [map_append] at hnodup
  exact hnodup.of_append_left

lemma eq_of_resultID (h : Distinct decode results) {p q : R} (hp : p ∈ results) (hq : q ∈ results)
    (heq : resultID decode p = resultID decode q) : p = q :=
  inj_on_of_nodup_map h.nodup hp hq heq

lemma ne_of_concat {record : R} (h : Distinct decode (results ++ [record])) {p : R}
    (hp : p ∈ results) : resultID decode p ≠ resultID decode record := by
  have hnodup := h.nodup
  rw [map_append, map_singleton, nodup_append] at hnodup
  exact hnodup.2.2 _ (mem_map_of_mem hp) _ mem_cons_self

end Distinct

/-- The queue consists of the results that have not been claimed, in the order in which they were
pushed, and the others are claimed. -/
structure Line (decode : R → Option ResultFields) (results : List R) (w : DeliveryWorld R) :
    Prop where
  order : InOrder decode w.route
  waiting : w.route.queue = results.filter (unclaimed decode w.log)
  claimed : ∀ c p, Hash.hget w.route.claimed c = some p ↔
    p ∈ results ∧ resultID decode p = some c ∧ c ∈ receivedIDs w.log
  known : ∀ c ∈ receivedIDs w.log, ∃ p ∈ results, resultID decode p = some c

namespace Line

variable {results : List R} {w : DeliveryWorld R}

lemma initial : Line decode ([] : List R) .initial where
  order := .initial
  waiting := rfl
  claimed c p := by simp [DeliveryWorld.initial, Route.initial]
  known c h := by cases h

lemma mem_results (h : Line decode results w) {p : R} (hp : p ∈ w.route.pending) : p ∈ results := by
  have hq : p ∈ w.route.queue := mem_reverse.mpr hp
  rw [h.waiting] at hq
  exact mem_of_mem_filter hq

lemma receivedIDs_push (record : R) :
    receivedIDs (w.next decode (.push record)).log = receivedIDs w.log := by
  show receivedIDs (w.log ++ _) = _
  rw [receivedIDs, filterMap_append]
  cases decode record <;> simp [receivedIDs]

lemma push (h : Line decode results w) {record : R}
    (hresults : Distinct decode (results ++ [record])) :
    Line decode (results ++ [record]) (w.next decode (.push record)) := by
  have hids : receivedIDs (w.next decode (.push record)).log = receivedIDs w.log :=
    receivedIDs_push record
  have hfresh : ∀ c, resultID decode record = some c → c ∉ receivedIDs w.log := by
    intro c hc hmem
    obtain ⟨p, hp, hpc⟩ := h.known c hmem
    exact hresults.ne_of_concat hp (hpc.trans hc.symm)
  refine ⟨{ h.order with parsable := ?_, distinct := ?_, apart := ?_ }, ?_, fun c p => ?_, ?_⟩
  · intro p hp
    rcases mem_cons.mp hp with rfl | hp
    · exact hresults.parsable p (mem_append_right _ mem_cons_self)
    · exact h.order.parsable p hp
  · refine nodup_cons.mpr ⟨fun hmem => ?_, h.order.distinct⟩
    obtain ⟨p, hp, hpc⟩ := mem_map.mp hmem
    exact hresults.ne_of_concat (h.mem_results hp) hpc
  · intro p hp c hc
    rcases mem_cons.mp hp with rfl | hp
    · refine eq_none_iff_forall_ne_some.mpr fun q hq => ?_
      exact hfresh c hc ((h.claimed c q).mp hq).2.2
    · exact h.order.apart p hp c hc
  · have hlast : unclaimed decode w.log record = true := by
      rw [unclaimed, Option.all_eq_true]
      exact fun c hc => decide_eq_true (hfresh c hc)
    have hsame : unclaimed decode (w.next decode (.push record)).log = unclaimed decode w.log := by
      funext p
      simp only [unclaimed, hids]
    show (record :: w.route.pending).reverse = _
    rw [hsame, filter_append, filter_singleton, hlast, ← h.waiting, reverse_cons]
    rfl
  · rw [hids]
    refine (h.claimed c p).trans (and_congr_left fun hp => ?_)
    rw [mem_append, mem_singleton, iff_self_or]
    rintro rfl
    exact absurd hp.2 (hfresh c hp.1)
  · intro c hc
    rw [hids] at hc
    obtain ⟨p, hp, hpc⟩ := h.known c hc
    exact ⟨p, mem_append_left _ hp, hpc⟩

lemma renew (h : Line decode results w) (c owner : String) (lease : ℤ) :
    Line decode results (w.next decode (.renew c owner lease)) := by
  show Line decode results { w with route := (w.route.renew w.now c owner lease).2 }
  rw [Route.renew]
  split
  next hholds =>
    have howner : (hget w.route.owners c).isSome = true :=
      (holds_iff.mp hholds).1 ▸ rfl
    refine ⟨{ h.order with leased := fun c' => ?_ }, h.waiting, h.claimed, h.known⟩
    simp only [hget_hset]
    split
    next heq =>
      rw [heq, ← h.order.owned, howner]
      rfl
    · exact h.order.leased c'
  · exact h

lemma no_expired (h : Line decode results w) {tie : String → ℕ} {owner : String} {lease : ℤ}
    (honce : (receivedIDs (w.next decode (.receive tie owner lease)).log).Nodup) :
    w.route.expiredLeases tie w.now = [] := by
  cases hexpired : w.route.expiredLeases tie w.now with
  | nil => rfl
  | cons l rest =>
    exfalso
    have hl : l ∈ w.route.expiredLeases tie w.now := hexpired ▸ mem_cons_self
    have hlease : (hget w.route.idx l.1).isSome = true := (mem_range hl).1 ▸ rfl
    rw [h.order.leased] at hlease
    obtain ⟨p, hp⟩ := isSome_iff_exists.mp hlease
    obtain ⟨-, hid, hreceived⟩ := (h.claimed l.1 p).mp hp
    have hqueue : (w.route.requeueExpired tie w.now).queue = _ := queue_requeueExpired
    rw [hexpired, filterMap_cons] at hqueue
    simp only [hp, cons_append] at hqueue
    obtain ⟨c, hc, hreceive, -⟩ := h.order.receive_cons owner lease hqueue
    obtain rfl : l.1 = c := some.inj (hid.symm.trans hc)
    have hlog : (w.next decode (.receive tie owner lease)).log =
        w.log ++ [.received l.1 w.now] := by
      show w.log ++ receiveEvents w.now _ = _
      rw [hreceive]
      rfl
    rw [hlog, receivedIDs, filterMap_append, nodup_append] at honce
    exact honce.2.2 l.1 hreceived l.1 (by simp) rfl

lemma receive (h : Line decode results w) (hresults : Distinct decode results) {tie : String → ℕ}
    {owner : String} {lease : ℤ}
    (honce : (receivedIDs (w.next decode (.receive tie owner lease)).log).Nodup) :
    Line decode results (w.next decode (.receive tie owner lease)) := by
  have hnone := h.no_expired honce
  have hrequeue : w.route.requeueExpired tie w.now = w.route := by
    rw [requeueExpired_eq, hnone]
    rfl
  cases hqueue : w.route.queue with
  | nil =>
    have hempty : (w.route.requeueExpired tie w.now).queue = [] := by rw [hrequeue, hqueue]
    have hreceive := h.order.receive_nil owner lease hempty
    have hnext : w.next decode (.receive tie owner lease) = w := by
      simp only [DeliveryWorld.next, hreceive, hrequeue, receiveEvents, append_nil]
    rwa [hnext]
  | cons p q =>
    have hcons : (w.route.requeueExpired tie w.now).queue = p :: q := by rw [hrequeue, hqueue]
    obtain ⟨c, hc, hreceive, hrest, horder⟩ := h.order.receive_cons owner lease hcons
    rw [hrequeue] at hreceive hrest horder
    have hnext : w.next decode (.receive tie owner lease) =
        { w with
          route := w.route.claim p c owner (w.now + lease)
          log := w.log ++ [.received c w.now] } := by
      simp only [DeliveryWorld.next, hreceive, receiveEvents]
    have hids : receivedIDs (w.log ++ [.received c w.now]) = receivedIDs w.log ++ [c] := by
      simp [receivedIDs]
    have hp : p ∈ results := by
      have hmem : p ∈ w.route.queue := hqueue ▸ mem_cons_self
      rw [h.waiting] at hmem
      exact mem_of_mem_filter hmem
    rw [hnext]
    refine ⟨horder, ?_, fun c' p' => ?_, fun c' hc' => ?_⟩
    · -- The claimed result leaves the queue, and no other one has its claim ID.
      have hfilter : results.filter (unclaimed decode (w.log ++ [.received c w.now])) =
          (p :: q).filter fun x => decide (resultID decode x ≠ some c) := by
        rw [← hqueue, h.waiting, List.filter_filter]
        refine filter_congr fun x _ => ?_
        rw [unclaimed, unclaimed, hids]
        cases resultID decode x with
        | none => rfl
        | some c' => simp [and_comm]
      have hdistinct : ∀ x ∈ q, resultID decode x ≠ some c := by
        have hnodup : ((p :: q).map (resultID decode)).Nodup := by
          rw [← hqueue, queue, map_reverse]
          exact nodup_reverse.mpr h.order.distinct
        intro x hx heq
        exact (nodup_cons.mp hnodup).1 (hc ▸ heq ▸ mem_map_of_mem hx)
      show ((w.route.claim p c owner (w.now + lease)).queue) = _
      rw [hrest, hfilter, filter_cons_of_neg (by simp [hc])]
      exact (filter_eq_self.mpr fun x hx => decide_eq_true (hdistinct x hx)).symm
    · show hget (hset w.route.claimed c p) c' = some p' ↔ _
      rw [hget_hset, hids, mem_append, mem_singleton]
      split
      next heq =>
        subst heq
        constructor
        · intro hp'
          obtain rfl := some.inj hp'
          exact ⟨hp, hc, .inr rfl⟩
        · rintro ⟨hp', hid, -⟩
          rw [hresults.eq_of_resultID hp hp' (hc.trans hid.symm)]
      next hne =>
        rw [h.claimed c' p', or_iff_left hne]
    · show ∃ p ∈ results, resultID decode p = some c'
      rw [hids, mem_append, mem_singleton] at hc'
      rcases hc' with hc' | rfl
      · exact h.known c' hc'
      · exact ⟨p, hp, hc⟩

end Line

lemma DeliveryWorld.log_prefix (w : DeliveryWorld R) (s : DeliveryStep R) :
    w.log <+: (w.next decode s).log := by
  cases s with
  | tick ms | renew c owner lease => exact prefix_refl _
  | push record | receive tie owner lease | ack tie c owner => exact prefix_append _ _

lemma Line.run {steps : List (DeliveryStep R)} (hacks : ∀ s ∈ steps, s.isAck = false)
    (hresults : Distinct decode (steps.filterMap DeliveryStep.pushed))
    (honce : (receivedIDs (steps.foldl (next decode) .initial).log).Nodup) :
    Line decode (steps.filterMap DeliveryStep.pushed) (steps.foldl (next decode) .initial):= by
  induction steps using reverseRecOn with
  | nil => exact Line.initial
  | append_singleton steps s ih =>
    have hacks' : ∀ t ∈ steps, t.isAck = false := fun t ht => hacks t (mem_append_left _ ht)
    rw [foldl_append, foldl_cons, foldl_nil] at honce ⊢
    rw [filterMap_append] at hresults ⊢
    have honce' : (receivedIDs (steps.foldl (next decode) .initial).log).Nodup :=
      honce.sublist (( log_prefix _ s).sublist.filterMap _)
    cases s with
    | push record =>
      exact (ih hacks' hresults.of_concat honce').push hresults
    | tick ms =>
      rw [filterMap_cons_none rfl, filterMap_nil, append_nil] at hresults ⊢
      have h := ih hacks' hresults honce'
      exact ⟨h.order, h.waiting, h.claimed, h.known⟩
    | receive tie owner lease =>
      rw [filterMap_cons_none rfl, filterMap_nil, append_nil] at hresults ⊢
      exact (ih hacks' hresults honce').receive hresults honce
    | renew c owner lease =>
      rw [filterMap_cons_none rfl, filterMap_nil, append_nil] at hresults ⊢
      exact (ih hacks' hresults honce').renew c owner lease
    | ack tie c owner =>
      have hack := hacks (.ack tie c owner) (mem_append_right _ mem_cons_self)
      cases hack

/-! ### Calls in succession -/

/-- A call of `ReceiveResult`, with the time that has passed since the last one. -/
structure ReceiveCall where
  wait : ℕ
  tie : String → ℕ
  owner : String
  lease : ℤ

/-- What the scripts of successive calls return. -/
def receiveCalls (decode : R → Option ResultFields) :
    DeliveryWorld R → List ReceiveCall → List (Received R)
  | _, [] => []
  | w, call :: calls =>
    let w := w.next decode (.tick call.wait)
    (w.route.receive decode call.tie w.now call.owner call.lease).1 ::
      receiveCalls decode (w.next decode (.receive call.tie call.owner call.lease)) calls

/-- What `ReceiveResult` returns.  If there is nothing to receive it waits and runs the script
again. -/
def Received.delivered : Received R → Option R
  | .result payload _ => some payload
  | _ => none

/-- No lease that the calls give runs out before the last of them. -/
def Timely : List ReceiveCall → Prop
  | [] => True
  | call :: calls => ((calls.map ReceiveCall.wait).sum : ℤ) < call.lease ∧ Timely calls

lemma delivered_cons {w : DeliveryWorld R} (h : InOrder decode w.route) (call : ReceiveCall)
    (calls : List ReceiveCall) :
    ∃ w' : DeliveryWorld R, InOrder decode w'.route ∧ w'.now = w.now + call.wait ∧
      w'.route.queue = (w.route.requeueExpired call.tie (w.now + call.wait)).queue.tail ∧
      (∀ c e, hget w'.route.idx c = some e → e = w.now + call.wait + call.lease ∨
        hget (w.route.requeueExpired call.tie (w.now + call.wait)).idx c = some e) ∧
      (receiveCalls decode w (call :: calls)).filterMap Received.delivered =
        (w.route.requeueExpired call.tie (w.now + call.wait)).queue.head?.toList ++
          (receiveCalls decode w' calls).filterMap Received.delivered := by
  refine ⟨(w.next decode (.tick call.wait)).next decode (.receive call.tie call.owner call.lease),
    ?_⟩
  rw [receiveCalls]
  simp only [DeliveryWorld.next]
  cases hqueue : (w.route.requeueExpired call.tie (w.now + call.wait)).queue with
  | nil =>
    rw [h.receive_nil call.owner call.lease hqueue]
    exact ⟨h.requeueExpired _ _, trivial, hqueue, fun c e he => .inr he, rfl⟩
  | cons p q =>
    obtain ⟨c, -, hreceive, hrest, horder⟩ := h.receive_cons call.owner call.lease hqueue
    rw [hreceive]
    refine ⟨horder, trivial, hrest, fun c' e he => ?_, rfl⟩
    simp only [claim, hget_hset] at he
    split at he
    · exact .inl (some.inj he).symm
    · exact .inr he

lemma head_append_take (l : List R) (n : ℕ) : l.head?.toList ++ l.tail.take n = l.take (n + 1) := by
  cases l <;> simp

lemma delivered_live {w : DeliveryWorld R} (h : InOrder decode w.route) {calls : List ReceiveCall}
    (hlive : ∀ c e, hget w.route.idx c = some e →
      w.now + ((calls.map ReceiveCall.wait).sum : ℤ) < e) (htimely : Timely calls) :
    (receiveCalls decode w calls).filterMap Received.delivered =
      w.route.queue.take calls.length := by
  induction calls generalizing w with
  | nil => simp [receiveCalls]
  | cons call calls ih =>
    obtain ⟨hlease, htimely⟩ := htimely
    rw [map_cons, sum_cons] at hlive
    have hrequeue : w.route.requeueExpired call.tie (w.now + call.wait) = w.route := by
      have hnone : w.route.expiredLeases call.tie (w.now + call.wait) = [] := by
        refine range_eq_nil _ _ fun c e he => ?_
        have hlt := hlive c e he
        omega
      rw [requeueExpired_eq, hnone]
      rfl
    obtain ⟨w', h', hnow, hqueue, hidx, hdelivered⟩ := delivered_cons h call calls
    rw [hrequeue] at hqueue hidx hdelivered
    have hlive' : ∀ c e, hget w'.route.idx c = some e →
        w'.now + ((calls.map ReceiveCall.wait).sum : ℤ) < e := by
      intro c e he
      rcases hidx c e he with rfl | he
      · omega
      · have hlt := hlive c e he
        omega
    rw [hdelivered, ih h' hlive' htimely, hqueue, length_cons]
    exact head_append_take _ _

lemma delivered_expired {w : DeliveryWorld R} (h : InOrder decode w.route)
    (hexpired : ∀ c e, hget w.route.idx c = some e → e ≤ w.now)
    (hbatch : w.route.idx.rows.length ≤ resultReclaimBatchSize) (calls : List ReceiveCall)
    (htimely : Timely calls) :
    ∃ leases : List (String × ℤ), leases.Perm w.route.idx.rows ∧
      leases.Pairwise (fun a b => a.2 ≤ b.2) ∧
      (receiveCalls decode w calls).filterMap Received.delivered =
        ((leases.filterMap fun l => hget w.route.claimed l.1) ++ w.route.queue).take
          calls.length := by
  cases calls with
  | nil =>
    exact ⟨range w.route.idx (fun _ => 0) (some w.now) resultReclaimBatchSize,
      perm_range _ hexpired hbatch, pairwise_range _ _ _ _, rfl⟩
  | cons call calls =>
    obtain ⟨hlease, htimely⟩ := htimely
    have hlate : ∀ c e, hget w.route.idx c = some e → e ≤ w.now + call.wait := by
      intro c e he
      have hle := hexpired c e he
      omega
    have hperm : (w.route.expiredLeases call.tie (w.now + call.wait)).Perm w.route.idx.rows :=
      perm_range _ hlate hbatch
    -- The first call puts everything back, so that only its own lease is left.
    have hgone : ∀ c e,
        hget (w.route.requeueExpired call.tie (w.now + call.wait)).idx c ≠ some e := by
      intro c e he
      rw [hget_idx_requeueExpired] at he
      split at he
      · cases he
      next hc =>
        have hrow : (c, e) ∈ w.route.idx.rows := mem_rows_iff.mpr he
        exact hc (mem_map_of_mem (hperm.mem_iff.mpr hrow))
    obtain ⟨w', h', hnow, hqueue, hidx, hdelivered⟩ := delivered_cons h call calls
    have hlive : ∀ c e, hget w'.route.idx c = some e →
        w'.now + ((calls.map ReceiveCall.wait).sum : ℤ) < e := by
      intro c e he
      rcases hidx c e he with rfl | he
      · omega
      · exact absurd he (hgone c e)
    refine ⟨_, hperm, pairwise_range _ _ _ _, ?_⟩
    rw [← queue_requeueExpired, hdelivered, delivered_live h' hlive htimely, hqueue, length_cons]
    exact head_append_take _ _

/-- Distinct results are pushed, and some of them are claimed, each of them once, until the leases
of all of those have expired.  If one batch is enough for the expired leases, then calls of
`ReceiveResult` return first the claimed results, in the order in which their leases have expired,
and then the others, in the order in which they were pushed. -/
theorem results_in_order {steps : List (DeliveryStep R)} {w : DeliveryWorld R}
    (hrun : steps.foldl (DeliveryWorld.next decode) .initial = w)
    (hacks : ∀ s ∈ steps, s.isAck = false)
    (hresults : Distinct decode (steps.filterMap DeliveryStep.pushed))
    (honce : (receivedIDs w.log).Nodup)
    (hexpired : ∀ c e, Hash.hget w.route.idx c = some e → e ≤ w.now)
    (hbatch : w.route.idx.rows.length ≤ resultReclaimBatchSize)
    {calls : List ReceiveCall} (htimely : Timely calls) :
    ∃ (leases : List (String × ℤ)) (expired : List R),
      leases.Perm w.route.idx.rows ∧ leases.Pairwise (fun a b => a.2 ≤ b.2) ∧
      leases.map (fun l => some l.1) = expired.map (resultID decode) ∧
      (∀ p, p ∈ expired ↔
        p ∈ steps.filterMap DeliveryStep.pushed ∧ unclaimed decode w.log p = false) ∧
      (receiveCalls decode w calls).filterMap Received.delivered =
        (expired ++ (steps.filterMap DeliveryStep.pushed).filter (unclaimed decode w.log)).take
          calls.length := by
  have h : Line decode (steps.filterMap DeliveryStep.pushed) w := by
    subst hrun
    exact Line.run hacks hresults honce
  obtain ⟨leases, hperm, hsorted, hdelivered⟩ :=
    delivered_expired h.order hexpired hbatch calls htimely
  rw [h.waiting] at hdelivered
  refine ⟨leases, _, hperm, hsorted, ?_, fun p => ?_, hdelivered⟩
  · -- Every lease belongs to a claimed record with its claim ID.
    have hclaimed : ∀ l ∈ leases, ∃ p, hget w.route.claimed l.1 = some p := by
      intro l hl
      have hlease : (hget w.route.idx l.1).isSome = true :=
        mem_rows_iff.mp (hperm.mem_iff.mp hl) ▸ rfl
      rw [h.order.leased] at hlease
      exact isSome_iff_exists.mp hlease
    clear hperm hsorted hdelivered
    induction leases with
    | nil => rfl
    | cons l leases ih =>
      obtain ⟨p, hp⟩ := hclaimed l mem_cons_self
      rw [filterMap_cons, hp, map_cons, map_cons,
        ih fun l' hl' => hclaimed l' (mem_cons_of_mem _ hl'), h.order.filed l.1 p hp]
  · rw [mem_filterMap]
    constructor
    · rintro ⟨l, -, hp⟩
      obtain ⟨hmem, hid, hreceived⟩ := (h.claimed l.1 p).mp hp
      refine ⟨hmem, ?_⟩
      simp [unclaimed, hid, hreceived]
    · rintro ⟨hmem, hclaimed⟩
      obtain ⟨f, hf⟩ := isSome_iff_exists.mp (hresults.parsable p hmem)
      have hid : resultID decode p = some f.claimID := by
        rw [resultID, hf]
        rfl
      have hreceived : f.claimID ∈ receivedIDs w.log := by
        simpa [unclaimed, hid] using hclaimed
      have hp := (h.claimed f.claimID p).mpr ⟨hmem, hid, hreceived⟩
      have hlease : (hget w.route.idx f.claimID).isSome = true := by
        rw [h.order.leased, hp]
        rfl
      obtain ⟨e, he⟩ := isSome_iff_exists.mp hlease
      exact ⟨(f.claimID, e), hperm.mem_iff.mpr (mem_rows_iff.mpr he), hp⟩

/-- Results with numbers, each with a claim ID of one character. -/
def numbered (n : ℕ) : Option ResultFields := some ⟨String.singleton (Char.ofNat n), ""⟩

/-- Every millisecond one result is pushed and claimed at once, and then all leases expire. -/
def claimedRun (n : ℕ) : List (DeliveryStep ℕ) :=
  ((List.range n).flatMap fun k => [.tick 1, .push k, .receive (fun _ => 0) "o" 1000]) ++
    [.tick 2000]

/-- The world after this run and more steps. -/
def claimedWorld (n : ℕ) (more : List (DeliveryStep ℕ)) : DeliveryWorld ℕ :=
  (claimedRun n ++ more).foldl (DeliveryWorld.next numbered) .initial

/-- A call that comes a millisecond after the one before it. -/
def receiver : ReceiveCall := ⟨1, fun _ => 0, "p", 1000⟩

/-- Two claimed results come first, and then one that was pushed after their leases had expired. -/
theorem claimedRun_in_order :
    ∃ expired : List ℕ, (∀ p, p ∈ expired ↔ p = 0 ∨ p = 1) ∧
      (receiveCalls numbered (claimedWorld 2 [.push 2]) [receiver, receiver, receiver]).filterMap
        Received.delivered = (expired ++ [2]).take 3 := by
  have hpushed : (claimedRun 2 ++ [DeliveryStep.push 2]).filterMap DeliveryStep.pushed =
      [0, 1, 2] := rfl
  have hresults : Distinct numbered [0, 1, 2] := ⟨by decide, by decide +kernel⟩
  have hlog : receivedIDs (claimedWorld 2 [.push 2]).log = ["\x00", "\x01"] := by decide +kernel
  have hfilter : [0, 1, 2].filter (unclaimed numbered (claimedWorld 2 [.push 2]).log) = [2] := by
    decide +kernel
  have hleases : ∀ l ∈ (claimedWorld 2 [.push 2]).route.idx.rows,
      l.2 ≤ (claimedWorld 2 [.push 2]).now := by
    decide +kernel
  obtain ⟨-, expired, -, -, -, hexpired, hdelivered⟩ :=
    @results_in_order _ numbered (claimedRun 2 ++ [.push 2]) (claimedWorld 2 [.push 2]) rfl
      (by decide) (hpushed ▸ hresults) (by rw [hlog]; decide +kernel)
      (fun c e he => hleases (c, e) (mem_rows_iff.mpr he)) (by decide +kernel)
      [receiver, receiver, receiver] ⟨by decide, by decide, by decide, trivial⟩
  rw [hpushed, hfilter] at hdelivered
  refine ⟨expired, fun p => (hexpired p).trans ?_, hdelivered⟩
  rw [hpushed]
  constructor
  · rintro ⟨hmem, hclaimed⟩
    simp only [mem_cons, not_mem_nil, or_false] at hmem
    rcases hmem with rfl | rfl | rfl
    · exact .inl rfl
    · exact .inr rfl
    · exact absurd hclaimed (by decide +kernel)
  · rintro (rfl | rfl)
    · exact ⟨by decide, by decide +kernel⟩
    · exact ⟨by decide, by decide +kernel⟩

/-- A hundred and one results are claimed, and all leases expire.  The second call returns the last
of them, although a hundred leases have expired before that one. -/
theorem second_batch_overtakes :
    (∀ s ∈ claimedRun 101, s.isAck = false) ∧
    Distinct numbered ((claimedRun 101).filterMap DeliveryStep.pushed) ∧
    (receivedIDs (claimedWorld 101 []).log).Nodup ∧
    (∀ l ∈ (claimedWorld 101 []).route.idx.rows, l.2 ≤ (claimedWorld 101 []).now) ∧
    Timely [receiver, receiver] ∧
    (receiveCalls numbered (claimedWorld 101 []) [receiver, receiver]).filterMap
      Received.delivered = [0, 100] ∧
    Hash.hget (claimedWorld 101 []).route.idx (String.singleton (Char.ofNat 1)) = some 1002 ∧
    Hash.hget (claimedWorld 101 []).route.idx (String.singleton (Char.ofNat 100)) = some 1101 := by
  -- All that has to be computed, at once.
  have hrun : (∀ s ∈ claimedRun 101, s.isAck = false) ∧
      (claimedRun 101).filterMap DeliveryStep.pushed = range 101 ∧
      receivedIDs (claimedWorld 101 []).log =
        (range 101).map (fun n => String.singleton (Char.ofNat n)) ∧
      (∀ l ∈ (claimedWorld 101 []).route.idx.rows, l.2 ≤ (claimedWorld 101 []).now) ∧
      (receiveCalls numbered (claimedWorld 101 []) [receiver, receiver]).filterMap
        Received.delivered = [0, 100] ∧
      hget (claimedWorld 101 []).route.idx (String.singleton (Char.ofNat 1)) = some 1002 ∧
      hget (claimedWorld 101 []).route.idx (String.singleton (Char.ofNat 100)) =
        some 1101 := by
    decide +kernel
  obtain ⟨hacks, hpushed, hlog, hleases, hdelivered, hfirst, hlast⟩ := hrun
  have hchar : ∀ n < 101, (Char.ofNat n).toNat = n := by decide
  have hids : ((range 101).map fun n => String.singleton (Char.ofNat n)).Nodup := by
    refine nodup_range.map_on fun m hm n hn heq => ?_
    rw [← hchar m (mem_range.mp hm), ← hchar n (mem_range.mp hn), String.singleton_inj.mp heq]
  have hresults : (range 101).map (resultID numbered) =
      ((range 101).map fun n => String.singleton (Char.ofNat n)).map some := by
    rw [List.map_map]
    rfl
  refine ⟨hacks, ?_, hlog ▸ hids, hleases, ⟨by decide, by decide, trivial⟩, hdelivered, hfirst,
    hlast⟩
  rw [hpushed]
  refine ⟨fun p _ => rfl, ?_⟩
  rw [hresults]
  exact hids.map (some_injective _)

end LlmdAsync.Redis
