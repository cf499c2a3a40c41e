import LlmdAsync.Redis.ResultDelivery

/-!
# Durable result delivery: unparsable records

A receiver claims a record that it cannot parse under a claim ID made of its owner token and tells
nobody, so that nothing can acknowledge the record and it comes back whenever its lease expires.
`Route.stored` counts such records in the pending list and in the claimed hash.  Every run of a
script keeps the count, except for one that claims an unparsable record under a claim ID that holds
another one already: `HSET` drops the first.
-/

namespace LlmdAsync.Redis

open List Option Hash Route DeliveryWorld Prod

variable {R : Type} {decode : R → Option ResultFields}

/-! ### The count of one script -/

namespace Route

/-- The number of selected records in the pending list and in the claimed hash. -/
def stored (sel : R → Bool) (r : Route R) : ℕ :=
  r.pending.countP sel + r.claimed.rows.countP fun e => sel e.2

variable {sel : R → Bool} {r r' : Route R} {now : ℤ}

lemma stored_congr (hp : r'.pending = r.pending) (hc : r'.claimed = r.claimed) :
    r'.stored sel = r.stored sel := by
  rw [stored, stored, hp, hc]

lemma stored_expireKeys (r : Route R) : (r.expireKeys now).stored sel = r.stored sel := by
  unfold expireKeys
  split <;> rfl

lemma stored_cleanTombstones (r : Route R) (tie : String → ℕ) :
    (r.cleanTombstones tie now).stored sel = r.stored sel :=
  cleanTombstones_same (stored sel) (fun _ _ => rfl) r tie now

lemma countP_hdel (sel : R → Bool) (h : Hash String R) (c : String) :
    ((hget h c).toList.countP sel) + (hdel h c).rows.countP (fun e => sel e.2) =
      h.rows.countP fun e => sel e.2 := by
  unfold hget hdel
  cases hc : h.get? c with
  | none =>
    rw [Table.erase_of_none hc]
    simp
  | some e =>
    rw [Table.countP_erase_of_some hc]
    simp [countP_cons, Nat.add_comm]

lemma stored_requeue (r : Route R) (c : String) : (r.requeue c).stored sel = r.stored sel := by
  simp only [stored, requeue, countP_append]
  rw [Nat.add_assoc, countP_hdel]

lemma stored_requeueExpired (r : Route R) (tie : String → ℕ) :
    (r.requeueExpired tie now).stored sel = r.stored sel := by
  unfold requeueExpired
  generalize (SortedSet.range r.idx tie (some now) resultReclaimBatchSize).reverse.map fst = l
  induction l generalizing r with
  | nil => rfl
  | cons c l ih => exact (ih (r.requeue c)).trans (stored_requeue r c)

lemma countP_dropLast (sel : R → Bool) {l : List R} {p : R} (hp : l.getLast? = some p) :
    l.dropLast.countP sel + (if sel p then 1 else 0) = l.countP sel := by
  conv_rhs => rw [← dropLast_append_getLast? p hp]
  rw [countP_append, countP_singleton]

lemma stored_claim {p : R} (hp : r.pending.getLast? = some p) {c : String}
    (hfree : ∀ q, hget r.claimed c = some q → sel q = false) (owner : String) (expiry : ℤ) :
    (r.claim p c owner expiry).stored sel = r.stored sel := by
  have hold : (hget r.claimed c).toList.countP sel = 0 := by
    cases hq : hget r.claimed c with
    | none => rfl
    | some q => simp [hfree q hq]
  have hdel := countP_hdel sel r.claimed c
  have hlast := countP_dropLast sel hp
  simp only [stored, claim, hset, Table.countP_put]
  simp only [Hash.hdel] at hdel
  omega

lemma stored_scan (hsel : ∀ p, sel p = true → decode p = none) (owner : String) (lease : ℤ) (n : ℕ)
    (r : Route R) (howned : ∀ c, hget r.owners c = none → hget r.claimed c = none)
    (hfree : ∀ p c, (r.scan decode now owner lease n).1 = .unparsable p c →
      ∀ q, hget r.claimed c = some q → sel q = false) :
    (r.scan decode now owner lease n).2.stored sel = r.stored sel := by
  induction n generalizing r with
  | zero => rfl
  | succ n ih =>
    cases hp : r.pending.getLast? with
    | none => simp only [scan, hp]
    | some p =>
      cases hf : decode p with
      | none =>
        simp only [scan, hp, hf] at hfree ⊢
        exact stored_claim hp (hfree p _ rfl) owner _
      | some f =>
        have hp₁ : (r.expireTombstone f.claimID now).pending.getLast? = some p := by
          rw [pending_expireTombstone]
          exact hp
        have hselp : sel p = false := by
          by_contra hs
          rw [hsel p (by simpa using hs)] at hf
          cases hf
        -- Neither looking at the tombstone nor popping a duplicate changes the claims.
        have hclaimed : (r.expireTombstone f.claimID now).claimed = r.claimed := by
          unfold expireTombstone
          split <;> rfl
        have howners : (r.expireTombstone f.claimID now).owners = r.owners := by
          unfold expireTombstone
          split <;> rfl
        have hkeep : (r.expireTombstone f.claimID now).stored sel = r.stored sel :=
          stored_congr (pending_expireTombstone _) hclaimed
        have hpop : (r.expireTombstone f.claimID now).pop.stored sel = r.stored sel := by
          have hlast := countP_dropLast sel hp₁
          rw [← hkeep]
          simp only [stored, pop, hselp] at hlast ⊢
          simp at hlast
          omega
        simp only [scan, hp, hf] at hfree ⊢
        split
        next ht =>
          rw [if_pos ht] at hfree
          refine (ih _ ?_ ?_).trans hpop
          · simpa only [pop, hclaimed, howners] using howned
          · simpa only [pop, hclaimed] using hfree
        next ht =>
          rw [if_neg ht] at hfree
          split
          next ho =>
            rw [if_pos ho] at hfree
            refine (ih _ ?_ ?_).trans hpop
            · simpa only [pop, hclaimed, howners] using howned
            · simpa only [pop, hclaimed] using hfree
          next ho =>
            rw [not_isSome_iff_eq_none, howners] at ho
            refine (stored_claim hp₁ ?_ owner _).trans hkeep
            intro q hq
            rw [hclaimed, howned _ ho] at hq
            cases hq

/-- What a receiver finds in the claimed hash before it claims something. -/
def claimedBeforeScan (r : Route R) (tie : String → ℕ) (now : ℤ) : Hash String R :=
  ((r.expireKeys now).requeueExpired tie now).claimed

lemma claimed_cleanTombstones (r : Route R) (tie : String → ℕ) :
    (r.cleanTombstones tie now).claimed = r.claimed :=
  cleanTombstones_same claimed (fun _ _ => rfl) r tie now

lemma stored_receive (hsel : ∀ p, sel p = true → decode p = none) {log : List DeliveryEvent}
    (hinv : Delivered decode r now log) (tie : String → ℕ) (owner : String) (lease : ℤ)
    (hfree : ∀ p c, (r.receive decode tie now owner lease).1 = .unparsable p c →
      ∀ q, hget (r.claimedBeforeScan tie now) c = some q → sel q = false) :
    (r.receive decode tie now owner lease).2.stored sel = r.stored sel := by
  have hinv₁ := hinv.moves (moves_expireKeys.trans
    ((moves_requeueExpired tie).trans (moves_cleanTombstones tie)))
  have hkeep : (((r.expireKeys now).requeueExpired tie now).cleanTombstones tie now).stored sel =
      r.stored sel := by
    rw [stored_cleanTombstones, stored_requeueExpired, stored_expireKeys]
  simp only [receive] at hfree ⊢
  split
  · exact hkeep
  next hpending =>
    rw [if_neg hpending] at hfree
    refine (stored_scan hsel owner lease _ _ ?_ ?_).trans hkeep
    · intro c hc
      have howned := hinv₁.owned c
      rw [hc] at howned
      exact not_isSome_iff_eq_none.mp (Bool.eq_false_iff.mp howned)
    · intro p c hanswer q hq
      rw [claimed_cleanTombstones] at hq
      exact hfree p c hanswer q hq

lemma stored_renew (c owner : String) (lease : ℤ) :
    (r.renew now c owner lease).2.stored sel = r.stored sel := by
  unfold renew
  split <;> rfl

lemma stored_ack (tie : String → ℕ) {c : String}
    (hfree : ∀ q, hget r.claimed c = some q → sel q = false) (owner : String) :
    (r.ack tie now c owner).2.stored sel = r.stored sel := by
  have hkeep : ((r.expireKeys now).cleanTombstones tie now).stored sel = r.stored sel := by
    rw [stored_cleanTombstones, stored_expireKeys]
  have hclaimed : ((r.expireKeys now).cleanTombstones tie now).claimed = r.claimed := by
    rw [claimed_cleanTombstones]
    unfold expireKeys
    split <;> rfl
  have hold : (hget r.claimed c).toList.countP sel = 0 := by
    cases hq : hget r.claimed c with
    | none => rfl
    | some q => simp [hfree q hq]
  simp only [ack]
  split
  · rw [← hkeep]
    have hdel := countP_hdel sel r.claimed c
    simp only [stored, bury, hclaimed]
    omega
  · split
    · exact hkeep
    · split
      · exact hkeep
      · exact hkeep

end Route

/-! ### Runs -/

/-- The step pushes a selected record. -/
def DeliveryStep.pushes (sel : R → Bool) : DeliveryStep R → Bool
  | .push record => sel record
  | _ => false

namespace DeliveryWorld

/-- The step does not claim an unparsable record under a claim ID that holds another one, and
acknowledges no claim ID under which an unparsable record has been put. -/
def spares (decode : R → Option ResultFields) (w : DeliveryWorld R) : DeliveryStep R → Bool
  | .receive tie owner lease =>
    match (w.route.receive decode tie w.now owner lease).1 with
    | .unparsable _ c =>
      (Hash.hget (w.route.claimedBeforeScan tie w.now) c).all fun q => (decode q).isSome
    | _ => true
  | .ack _ c _ => !w.log.contains (.parked c)
  | _ => true

/-- All steps of a run spare the unparsable records. -/
def sparing (decode : R → Option ResultFields) : DeliveryWorld R → List (DeliveryStep R) → Bool
  | _, [] => true
  | w, s :: steps => w.spares decode s && sparing decode (w.next decode s) steps

lemma sparing_append (w : DeliveryWorld R) (steps more : List (DeliveryStep R)) :
    w.sparing decode (steps ++ more) =
      (w.sparing decode steps && (steps.foldl (next decode) w).sparing decode more) := by
  induction steps generalizing w with
  | nil => rfl
  | cons s steps ih => simp only [cons_append, sparing, ih, foldl_cons, Bool.and_assoc]

variable {w : DeliveryWorld R} {sel : R → Bool}

lemma stored_next (hsel : ∀ p, sel p = true → decode p = none)
    (hinv : Delivered decode w.route w.now w.log) {s : DeliveryStep R}
    (hspares : w.spares decode s = true) :
    (w.next decode s).route.stored sel =
      w.route.stored sel + if s.pushes sel then 1 else 0 := by
  have hparsable : ∀ {q : R}, (decode q).isSome = true → sel q = false := by
    intro q hq
    by_contra hs
    rw [hsel q (by simpa using hs)] at hq
    cases hq
  cases s with
  | tick ms => rfl
  | push record =>
    by_cases hs : sel record = true <;>
      simp [next, stored, DeliveryStep.pushes, hs, Nat.add_right_comm]
  | receive tie owner lease =>
    simp only [next, DeliveryStep.pushes, Bool.false_eq_true, if_false, Nat.add_zero]
    refine stored_receive hsel hinv tie owner lease ?_
    intro p c hanswer q hq
    simp only [spares, hanswer, hq, all_some] at hspares
    exact hparsable hspares
  | renew c owner lease => exact stored_renew c owner lease
  | ack tie c owner =>
    simp only [next, DeliveryStep.pushes, Bool.false_eq_true, if_false, Nat.add_zero]
    refine stored_ack tie ?_ owner
    intro q hq
    rcases hinv.filed c q hq with ⟨f, hf, -⟩ | hparked
    · exact hparsable (isSome_iff_exists.mpr ⟨f, hf⟩)
    · simp [spares, hparked] at hspares

lemma Reachable.next (h : w.Reachable decode) (s : DeliveryStep R) :
    (w.next decode s).Reachable decode := by
  obtain ⟨steps, rfl⟩ := h
  exact ⟨steps ++ [s], by rw [foldl_append, foldl_cons, foldl_nil]⟩

lemma stored_run (hsel : ∀ p, sel p = true → decode p = none) {steps : List (DeliveryStep R)}
    (hw : w.Reachable decode) (hsparing : w.sparing decode steps = true) :
    (steps.foldl (next decode) w).route.stored sel =
      w.route.stored sel + steps.countP (·.pushes sel) := by
  induction steps generalizing w with
  | nil => rfl
  | cons s steps ih =>
    simp only [sparing, Bool.and_eq_true] at hsparing
    rw [foldl_cons, ih (Reachable.next hw s) hsparing.2,
      stored_next hsel hw.delivered hsparing.1, countP_cons]
    omega

end DeliveryWorld

/-- In every run whose steps spare the unparsable records: the selected records that the script
cannot parse are in the pending list or in the claimed hash, each as often as it has been pushed,
and so their number never decreases. -/
theorem unparsable_records_kept {sel : R → Bool} (hsel : ∀ p, sel p = true → decode p = none)
    {steps more : List (DeliveryStep R)}
    (hsparing : DeliveryWorld.sparing decode .initial (steps ++ more) = true) :
    let w := steps.foldl (next decode) .initial
    let w' := more.foldl (next decode) w
    w.route.stored sel = steps.countP (·.pushes sel) ∧
      w.route.stored sel ≤ w'.route.stored sel := by
  intro w w'
  rw [sparing_append, Bool.and_eq_true] at hsparing
  have hw : w.Reachable decode := ⟨steps, rfl⟩
  have hsteps : w.route.stored sel = 0 + steps.countP (·.pushes sel) :=
    stored_run hsel ⟨[], rfl⟩ hsparing.1
  have hmore : w'.route.stored sel = w.route.stored sel + more.countP (·.pushes sel) :=
    stored_run hsel hw hsparing.2
  exact ⟨by omega, by omega⟩

/-- Two records that cannot be parsed, told apart by their numbers. -/
def malformedRun : List (DeliveryStep (ℕ × Option ResultFields)) :=
  [.push (1, none), .push (2, none), .receive (fun _ => 0) "o1" 1000]

/-- Another consumer receives the second record. -/
theorem malformedRun_kept :
    let steps := malformedRun ++ [.receive (fun _ => 0) "o2" 1000]
    (steps.foldl (next snd) .initial).route.stored (fun p => p.2.isNone) =
      2 := by
  intro steps
  have hsel : ∀ p : ℕ × Option ResultFields, p.2.isNone = true → p.2 = none :=
    fun p hp => isNone_iff_eq_none.mp hp
  exact (@unparsable_records_kept _ snd _ hsel steps [] (by decide +kernel)).1

/-- The first consumer's reply is lost and it sends the script again, with the same owner token:
the first record is gone. -/
theorem malformedRun_resent :
    let w := malformedRun.foldl (next snd) .initial
    let w' := w.next snd (.receive (fun _ => 0) "o1" 1000)
    w.route.stored (fun p => p.2.isNone) = 2 ∧ w'.route.stored (fun p => p.2.isNone) = 1 ∧
      w'.route.stored (fun p => decide (p = (1, none))) = 0 := by
  decide +kernel

end LlmdAsync.Redis
