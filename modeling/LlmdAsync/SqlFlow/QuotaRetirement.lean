import LlmdAsync.SqlFlow.QuotaCounts

/-!
# Retired holders of the quota store

What `known` counts, in the terms of its comment, and which holders are marked as `deleting`.  Only
`settle` marks a holder.  An acquire or a release that fails retires a holder that it still counts
against, and settles it right after.  The heartbeat also retires holders whose renewal has failed
for the whole of a lease.  It does not look at `known`, and nothing settles a holder that counts
nothing, so such a holder is never marked and is renewed as long as the store is open.
-/

namespace LlmdAsync.SqlFlow.QuotaStore

open SqlQueue Custody Option Function Entry ThreadSystem Registry Prod List QuotaWorld Settled

variable {ttl : ℤ} {t : Thread} {c : Choice} {x : Audit} {a : Action} {r : a.Reply}

/-! ### What is retired is settled -/

/-- A holder that has just been retired is settled next. -/
def settlesNext (a : Action) : Option String → Prop
  | none => True
  | some h => ∃ n why, a = .settle h n why

/-- The holder that has just been retired. -/
def justRetired : (a : Action) → a.Reply → Option String → Option String
  | .retire h, _, _ => some h
  | .settle .., _, _ => none
  | _, _, g => g

/-- The code settles every holder that it retires. -/
abbrev Orderly {α : Type} (p : Code α) : Prop :=
  p.Follows settlesNext justRetired (fun _ g => g = none) none

namespace Orderly

variable {α β : Type}

lemma pure (b : α) : Orderly (Pure.pure b : Code α) := rfl

lemma bind {p : Code α} {f : α → Code β} (hp : Orderly p) (hf : ∀ b, Orderly (f b)) :
    Orderly (p >>= f) := by
  refine (Prog.follows_bind _ _).mpr (hp.weaken fun b g hg => ?_)
  subst hg
  exact hf b

lemma step {f : a.Reply → Code α} (ha : ∀ r, justRetired a r none = none)
    (h : ∀ r, Orderly (f r)) : Orderly (call a >>= f) := by
  refine Prog.Follows.step trivial fun r => ?_
  rw [ha r]
  exact h r

lemma perform (ha : ∀ r, justRetired a r none = none) : Orderly (call a) := step ha pure

end Orderly

lemma orderly_delete (h : String) : Orderly (delete h) := by
  refine .step (fun _ => rfl) fun r => ?_
  cases r with
  | error e => exact .pure _
  | ok _ => exact .perform fun _ => rfl

lemma orderly_drop (h : String) (drop : Bool) :
    Orderly (if drop then delete h else pure () : Code Unit) := by
  cases drop with
  | true => exact orderly_delete h
  | false => exact .pure _

lemma orderly_settle (h : String) (n : ℤ) (why : Settled) : Orderly (settle h n why) :=
  .step (fun _ => rfl) (orderly_drop h)

lemma orderly_retire {α : Type} (h : String) (n : ℤ) (why : Settled) {f : Unit → Code α}
    (hf : ∀ u, Orderly (f u)) : Orderly (call (.retire h) >>= fun _ => settle h n why >>= f) := by
  refine Prog.Follows.step trivial fun _ => ?_
  refine (Prog.follows_bind _ _).mpr (Prog.Follows.step ⟨n, why, rfl⟩ fun drop => ?_)
  refine (orderly_drop h drop).weaken fun u g hg => ?_
  subst hg
  exact hf u

lemma orderly_begin : Orderly begin := by
  refine .step (fun _ => rfl) fun counted => ?_
  cases counted with
  | some h => exact .pure _
  | none =>
  refine .step (fun _ => rfl) fun _ => .step (fun _ => rfl) fun counted => ?_
  cases counted with
  | some h => exact .step (fun _ => rfl) fun _ => .pure _
  | none =>
  refine .step (fun _ => rfl) fun owner => ?_
  cases owner with
  | error e => exact .step (fun _ => rfl) fun _ => .pure _
  | ok name =>
  refine .step (fun _ => rfl) fun started => .step (fun _ => rfl) fun registered => ?_
  cases registered with
  | error e => exact .step (fun _ => rfl) fun _ => .pure _
  | ok _ => exact .step (fun _ => rfl) fun _ => .step (fun _ => rfl) fun _ => .pure _

lemma orderly_acquireOnce (k : SlotKey) (batch : List ℕ) : Orderly (acquireOnce k batch) := by
  refine .bind orderly_begin fun begun => ?_
  cases begun with
  | error e => exact .pure _
  | ok h =>
  refine .step (fun _ => rfl) fun r => ?_
  cases r with
  | ok granted => exact .bind (orderly_settle ..) fun _ => .pure _
  | error e =>
    cases e with
    | lapsed | failed e => exact orderly_retire h 1 .failed fun _ => .pure _

lemma orderly_acquireSlots (k : SlotKey) (batch : List ℕ) : Orderly (acquireSlots k batch) := by
  refine .bind (orderly_acquireOnce k batch) fun r => ?_
  cases r with
  | ok r => exact .pure _
  | error e =>
    cases e with
    | some e => exact .pure _
    | none =>
      refine .bind (orderly_acquireOnce k batch) fun r => ?_
      cases r with
      | ok r => exact .pure _
      | error e => cases e <;> exact .pure _

lemma orderly_sendReleases (rows : List (String × List (String × ℕ))) :
    Orderly (sendReleases rows) := by
  induction rows with
  | nil => exact .pure _
  | cons row rows ih =>
    obtain ⟨h, counts⟩ := row
    refine .step (fun _ => rfl) fun r => ?_
    cases r with
    | ok _ => exact .bind (orderly_settle ..) fun _ => ih
    | error e => exact orderly_retire h (total counts) (.sent counts) fun _ => ih

lemma orderly_flushReleases (rounds : ℕ) : Orderly (flushReleases rounds) := by
  induction rounds with
  | zero => exact .perform fun _ => rfl
  | succ rounds ih =>
    refine .step (fun _ => rfl) fun batch => ?_
    split
    · exact .pure _
    · exact .bind (orderly_sendReleases batch) fun _ => ih

lemma orderly_release (rounds : ℕ) (h key : String) (w : ℕ) (by_ : Releaser) :
    Orderly (release rounds h key w by_) := by
  refine .step (fun _ => rfl) fun start => ?_
  cases start with
  | false => exact .pure _
  | true =>
    refine .step (fun _ => rfl) fun spawned => ?_
    cases spawned with
    | true => exact .pure _
    | false => exact orderly_flushReleases rounds

lemma orderly_reply (rounds : ℕ) (key : String) (w : ℕ) (by_ : Releaser) (r : AdmitReply) :
    Orderly (match r.ok, r.holder with
      | true, some h => release rounds h key w by_
      | _, _ => pure () : Code Unit) := by
  split
  · exact orderly_release rounds _ key w by_
  · exact .pure _

lemma orderly_handOff {n : ℕ} (rounds : ℕ) (key : String) (res : Except String (Fin n × String))
    (ws : List ℕ) (i : ℕ) : Orderly (handOff rounds key res ws i) := by
  induction ws generalizing i with
  | nil => exact .pure _
  | cons w ws ih =>
    refine .step (fun _ => rfl) fun answered => ?_
    cases answered with
    | true => exact .step (fun _ => rfl) fun _ => ih (i + 1)
    | false => exact .bind (orderly_reply rounds key w .flush _) fun _ => ih (i + 1)

lemma orderly_flush (k : SlotKey) (rounds : ℕ) : Orderly (flush k rounds) := by
  induction rounds with
  | zero => exact .perform fun _ => rfl
  | succ rounds ih =>
    refine .step (fun _ => rfl) fun batch => ?_
    split
    · exact .pure _
    · refine .bind (orderly_acquireSlots k batch) fun res => ?_
      exact .bind (orderly_handOff rounds k.key res batch 0) fun _ => ih

lemma orderly_admitSlot (k : SlotKey) : Orderly (admitSlot k) := by
  refine .step (fun _ => rfl) fun waiter => ?_
  cases waiter with
  | none => exact .pure _
  | some w =>
  refine .step (fun _ => rfl) fun first => ?_
  cases first with
  | some r => exact .pure _
  | none =>
  refine .step (fun _ => rfl) fun gaveUp => ?_
  cases gaveUp with
  | true => exact .pure _
  | false => exact .step (fun _ => rfl) fun r => .pure _

lemma orderly_beat (hs : List String) : Orderly (beat hs) := by
  induction hs with
  | nil => exact .pure _
  | cons h hs ih =>
    refine .step (fun _ => rfl) fun deleting => ?_
    cases deleting with
    | true => exact .bind (orderly_delete h) fun _ => ih
    | false =>
      refine .bind ?_ fun _ => ih
      exact .step (fun _ => rfl) fun _ => .step (fun _ => rfl) fun _ => .perform fun _ => rfl

lemma orderly_heartbeat (rounds : ℕ) : Orderly (heartbeat rounds) := by
  induction rounds with
  | zero => exact .perform fun _ => rfl
  | succ rounds ih =>
    refine .step (fun _ => rfl) fun ticked => ?_
    cases ticked with
    | false => exact .pure _
    | true =>
    refine .step (fun _ => rfl) fun used => ?_
    cases used with
    | false => exact ih
    | true =>
    refine .step (fun _ => rfl) fun hs => .bind (orderly_beat hs) fun _ => ?_
    exact .step (fun _ => rfl) fun _ => .step (fun _ => rfl) fun _ => ih

lemma orderly_deleteAll (hs : List String) : Orderly (deleteAll hs) := by
  induction hs with
  | nil => exact .pure _
  | cons h hs ih => exact .bind (orderly_delete h) fun _ => ih

lemma Operation.orderly (o : Operation) : Orderly o.code := by
  cases o with
  | acquireSlot rounds k =>
    refine .step (fun _ => rfl) fun _ => .bind (orderly_admitSlot k) fun r => ?_
    cases r with
    | error e => exact .pure _
    | ok wr => exact orderly_reply rounds k.key wr.1 .caller wr.2
  | routine rounds =>
    refine .step (fun _ => rfl) fun job => .bind ?_ fun _ => .perform fun _ => rfl
    cases job with
    | flush k => exact orderly_flush k rounds
    | flushReleases => exact orderly_flushReleases rounds
    | heartbeat => exact orderly_heartbeat rounds
  | close =>
    refine .step (fun _ => rfl) fun _ => .step (fun _ => rfl) fun _ => ?_
    exact .step (fun _ => rfl) fun _ => .step (fun _ => rfl) fun hs => orderly_deleteAll hs

lemma Counted.settled_pos (hx : Counted x) {h : String} {why : Settled}
    (hn : {why.entry h} ≤ x.ledger.held (.hand t)) : x.store.registry.known h ≠ 0 := by
  have hcounted := load_le_weigh hn (counted h)
  have hsized := load_le_weigh hn empty
  have hknown := hx.known h
  rw [hx.sized, Nat.le_zero] at hsized
  have hpos : load (counted h) {why.entry h} ≠ 0 := by
    cases why with
    | failed | granted key ws => simp [entry, counted]
    | sent counts => simpa [entry, counted, empty] using hsized
  omega

lemma known_ne_zero_of_retire {steps : List QuotaStep} {P : Pool Action Action.Reply Thread Audit}
    (h : (system ttl).Reachable .free (newQuotaStore (QuotaWorld.initial.run steps)) P)
    {holder : String} {k : Unit → Code Unit}
    (hp : P.prog t = some (.act (.retire holder) k)) :
    P.state.store.registry.known holder ≠ 0 := by
  obtain ⟨hx, hacc⟩ := reachable_sound h
  obtain ⟨g, hfollows⟩ := h.prog (K := fun _ p => ∃ g, p.Follows settlesNext justRetired _ g)
    (fun _ o => ⟨none, o.orderly⟩) (fun _ i _ r ⟨g, hg⟩ => ⟨justRetired i r g, hg.2 r⟩) t _ hp
  have ht := hacc t
  rw [hp] at ht
  obtain ⟨account, hobeys, hown, -⟩ := ht
  have hnext := hfollows.2 ()
  have hneeds := hobeys.2 ()
  change (k ()).Follows settlesNext justRetired _ (some holder) at hnext
  cases hk : k () with
  | done u =>
    rw [hk] at hnext
    exact nomatch hnext
  | act b k' =>
    rw [hk] at hnext hneeds
    obtain ⟨n, why, rfl⟩ := hnext.1
    have hle : {why.entry holder} ≤ P.state.ledger.held (.hand t) := by
      rw [hown]
      simpa [Terms.enter, terms, Action.needs, Action.yields] using hneeds.1.needs
    exact hx.counted.settled_pos hle

/-! ### Holders that are marked -/

namespace Registry

variable {s s' : Registry}

/-- A retired holder that counts nothing is being deleted or gone, and what is gone is not in the
map any more. -/
structure Cleared (s : Registry) : Prop where
  marked : ∀ h y, s.heap h = some y → y.retired = true → y.known = 0 →
    y.deleting = true ∨ y.gone = true
  removed : ∀ h y, s.heap h = some y → y.gone = true → h ∉ s.holders

/-- The heartbeat would retire a holder that counts nothing and is not marked. -/
def Strands (ttl : ℤ) (s : Registry) (h : String) : Prop :=
  ∃ y, s.heap h = some y ∧ s.clock - y.renewed ≥ ttl ∧ y.known = 0 ∧ y.deleting = false ∧
    y.gone = false

namespace Cleared

lemma of_eq (hs : Cleared s) (hheap : s'.heap = s.heap) (hholders : s'.holders = s.holders) :
    Cleared s' :=
  ⟨hheap ▸ hs.marked, fun h y hy hgone => hholders ▸ hs.removed h y (hheap ▸ hy) hgone⟩

lemma modify (hs : Cleared s) (h₀ : String) {f : Holder → Holder}
    (hmarked : ∀ y, s.heap h₀ = some y → (f y).retired = true → (f y).known = 0 →
      (f y).deleting = true ∨ (f y).gone = true)
    (hgone : ∀ y, (f y).gone = y.gone) : Cleared (s.modify h₀ f) := by
  have hcases : ∀ h y', (s.modify h₀ f).heap h = some y' →
      (h = h₀ ∧ ∃ y, s.heap h₀ = some y ∧ y' = f y) ∨ s.heap h = some y' := by
    intro h y' hy'
    rcases eq_or_ne h h₀ with rfl | hne
    · simp only [Registry.modify, update_self, map_eq_some_iff] at hy'
      obtain ⟨y, hy, rfl⟩ := hy'
      exact .inl ⟨rfl, y, hy, rfl⟩
    · simp only [Registry.modify, update_of_ne hne] at hy'
      exact .inr hy'
  refine ⟨fun h y' hy' hretired hknown => ?_, fun h y' hy' hg => ?_⟩
  · rcases hcases h y' hy' with ⟨rfl, y, hy, rfl⟩ | hy
    · exact hmarked y hy hretired hknown
    · exact hs.marked h y' hy hretired hknown
  · rcases hcases h y' hy' with ⟨rfl, y, hy, rfl⟩ | hy
    · exact hs.removed h y hy ((hgone y).symm.trans hg)
    · exact hs.removed h y' hy hg

lemma remove (hs : Cleared s) (h₀ : String) : Cleared (s.remove h₀) := by
  have hcases : ∀ h y', (s.remove h₀).heap h = some y' →
      (h = h₀ ∧ y'.gone = true) ∨ (h ≠ h₀ ∧ s.heap h = some y') := by
    intro h y' hy'
    rcases eq_or_ne h h₀ with rfl | hne
    · simp only [Registry.remove, Registry.modify, update_self,
        map_eq_some_iff] at hy'
      obtain ⟨y, -, rfl⟩ := hy'
      exact .inl ⟨rfl, rfl⟩
    · simp only [Registry.remove, Registry.modify, update_of_ne hne] at hy'
      exact .inr ⟨hne, hy'⟩
  refine ⟨fun h y' hy' hretired hknown => ?_, fun h y' hy' hg hmem => ?_⟩
  · rcases hcases h y' hy' with ⟨-, hg⟩ | ⟨-, hy⟩
    · exact .inr hg
    · exact hs.marked h y' hy hretired hknown
  · obtain ⟨hmem, hne⟩ := mem_filter.mp hmem
    rcases hcases h y' hy' with ⟨rfl, -⟩ | ⟨-, hy⟩
    · simp at hne
    · exact hs.removed h y' hy hg hmem

lemma retire (hs : Cleared s) {h₀ : String} (hretire : ∀ y, s.heap h₀ = some y → y.known = 0 →
    y.deleting = true ∨ y.gone = true) : Cleared (s.retire h₀) := by
  have hmodify := hs.modify h₀ (f := fun y => { y with retired := true })
    (fun y hy _ hknown => hretire y hy hknown) fun _ => rfl
  exact hmodify.of_eq rfl rfl

lemma attempt (hs : Cleared s) {ε α : Type} (o : Outcome) (fail : String → ε) (step : QuotaStep)
    (answer : Except ε α) : Cleared (s.attempt o fail step answer).2 := by
  rcases ran_attempt s o fail step answer with heq | heq
  · rw [heq]
    exact hs
  · rw [heq]
    exact hs.of_eq rfl rfl

lemma renewed (hs : Cleared s) {h₀ : String} (started : ℤ) {live : Except String Bool}
    (hlive : ∀ e, live = .error e → ¬ s.Strands ttl h₀) :
    Cleared (s.renewed ttl h₀ started live) := by
  unfold Registry.renewed
  split
  · exact hs.modify h₀ (fun y hy hretired hknown => hs.marked h₀ y hy hretired hknown) fun _ => rfl
  · refine ⟨fun h y hy hretired hknown => ?_, fun h y hy hgone hmem => ?_⟩
    · rcases eq_or_ne h h₀ with rfl | hne
      · simp only [Registry.remove, Registry.modify, update_self,
          map_eq_some_iff] at hy
        obtain ⟨z, -, rfl⟩ := hy
        exact .inr rfl
      · refine hs.marked h y ?_ hretired hknown
        simpa [Registry.remove, Registry.retire, Registry.vacate, Registry.modify, hne] using hy
    · obtain ⟨hmem, hne⟩ := mem_filter.mp hmem
      refine hs.removed h y ?_ hgone hmem
      have hne : h ≠ h₀ := by simpa using hne
      simpa [Registry.remove, Registry.retire, Registry.vacate, Registry.modify, hne] using hy
  · next e =>
    split
    · next hlapsed =>
      refine hs.retire fun y hy hknown => ?_
      by_contra hmarked
      simp only [not_or, Bool.not_eq_true] at hmarked
      have hsince : s.clock - y.renewed ≥ ttl := by simpa [hy] using hlapsed
      exact hlive e rfl ⟨y, hy, hsince, hknown, hmarked.1, hmarked.2⟩
    · exact hs

lemma step (hs : Cleared s) (hkept : s.Kept)
    (hnew : ∀ name started, a = .insertHolder name started → s.heap name = none)
    (hretire : ∀ h, a = .retire h → s.known h ≠ 0)
    (hrenewed : ∀ h started e, a = .renewed h started (.error e) → ¬ s.Strands ttl h)
    (he : s.step ttl a c = some (r, s')) : Cleared s' := by
  cases a with
  | countCurrent =>
    simp only [step] at he
    split at he
    · cases he
      exact hs
    · next h hh =>
      cases he
      refine hs.modify h (fun y hy hretired _ => ?_) fun _ => rfl
      obtain ⟨z, hz, hcurrent⟩ := hkept.current h hh
      obtain rfl : z = y := some.inj (hz.symm.trans hy)
      rw [hcurrent] at hretired
      cases hretired
  | insertHolder name started =>
    cases he
    refine ⟨fun h y hy hretired hknown => ?_, fun h y hy hgone hmem => ?_⟩
    · rcases eq_or_ne h name with rfl | hne
      · simp only [update_self, some.injEq] at hy
        subst hy
        cases hretired
      · simp only [update_of_ne hne] at hy
        exact hs.marked h y hy hretired hknown
    · rcases eq_or_ne h name with rfl | hne
      · simp only [update_self, some.injEq] at hy
        subst hy
        cases hgone
      · simp only [update_of_ne hne] at hy
        exact hs.removed h y hy hgone ((mem_cons.mp hmem).resolve_left hne)
  | retire h =>
    cases he
    refine hs.retire fun y hy hknown => absurd ?_ (hretire h rfl)
    rw [known, hy]
    exact hknown
  | settle h n why =>
    obtain ⟨y, hy, heq⟩ := map_eq_some_iff.mp he
    cases heq
    refine hs.modify h (fun z hz hretired hknown => ?_) fun _ => rfl
    obtain rfl : y = z := some.inj (hy.symm.trans hz)
    -- A holder that is left with nothing is dropped, unless it is marked already.
    cases hdel : y.deleting <;> cases hgone : y.gone <;> simp_all
  | markGone h =>
    cases he
    exact hs.remove h
  | renewed h started live =>
    cases he
    exact hs.renewed started fun e heq => hrenewed h started e (by rw [heq])
  | registerQuotaHolder name | acquireQuotaSlots h key batch limit | releaseQuotaSlots h counts
  | renewQuotaHolder h | deleteQuotaHolder h | reapQuotaHolders | reapQuota =>
    obtain ⟨rfl, rfl⟩ := Prod.ext_iff.mp (some.inj he)
    exact hs.attempt ..
  | markUsed | unlockRegister | now | isUsed | isDeleting h | queueRelease h key w by_ =>
    cases he
    exact hs.of_eq rfl rfl
  | lockRegister | listHolders | idleHolders =>
    simp only [step] at he
    split at he <;> cases he
    exact hs.of_eq rfl rfl
  | newOwner =>
    simp only [step] at he
    split at he
    · cases he
      exact hs
    · split at he <;> cases he
      exact hs.of_eq rfl rfl
  | takePending =>
    simp only [step] at he
    split at he
    · cases he
      exact hs.of_eq rfl rfl
    · split at he <;> cases he
      exact hs.of_eq rfl rfl
  | _ => cases he

end Cleared

end Registry

/-- No heartbeat finds that a renewal has failed, and that the last one before was a lease ago,
while the holder counts nothing and is not marked. -/
def renewsInUse (ttl : ℤ) : Discipline Action Thread Audit Choice Operation Event where
  act _ a _ x := ∀ h started e, a = .renewed h started (.error e) →
    ¬ x.store.registry.Strands ttl h
  start _ _ _ := True
  env _ _ := True

/-! ### What `known` counts -/

namespace Entry

/-- The entry is an acquire in flight. -/
def inFlight (h : String) : Entry → ℕ
  | .acquiring h' => if h' = h then 1 else 0
  | .won h' _ _ => if h' = h then 1 else 0
  | _ => 0

/-- How many releases of the holder are being sent. -/
def beingSent (h : String) : Entry → ℕ
  | .sending h' counts => if h' = h then total counts else 0
  | .sent h' counts => if h' = h then total counts else 0
  | _ => 0

/-- The entry is a slot that has not been sent to a caller. -/
def awaitsHandOff (h : String) : Entry → ℕ
  | .slot .held _ _ _ => 0
  | .slot _ h' _ _ => if h' = h then 1 else 0
  | _ => 0

lemma counted_eq (h : String) (e : Entry) : e.counted h =
    e.inFlight h + (e.holds (fun g => g.holder = h) + (e.beingSent h + e.awaitsHandOff h)) := by
  cases e with
  | slot phase h' key w => cases phase <;> simp [counted, inFlight, holds, beingSent, awaitsHandOff]
  | _ => simp [counted, inFlight, holds, beingSent, awaitsHandOff]

end Entry

namespace Audit

variable (x : Audit) (h : String)

def inFlight : ℕ := x.ledger.weigh (Entry.inFlight h)

def handedOut : ℕ := x.past.handed.countP fun g => g.holder = h

/-- Those of them that were passed to `release`. -/
def givenBack : ℕ := x.past.released.countP fun g => g.holder = h

/-- Releases that are queued or being sent. -/
def releasing : ℕ := x.store.registry.queued h + x.ledger.weigh (Entry.beingSent h)

/-- Slots that have not been sent to a caller. -/
def awaitsHandOff : ℕ := x.ledger.weigh (Entry.awaitsHandOff h)

end Audit

lemma Sound.known_eq (hx : Sound x) (h : String) : x.store.registry.known h =
    x.inFlight h + (x.handedOut h - x.givenBack h) + x.releasing h + x.awaitsHandOff h := by
  have hknown := hx.counted.known h
  have hhanded := hx.tallied.handed fun g => g.holder = h
  have hsplit : x.ledger.weigh (Entry.counted h) = x.ledger.weigh (Entry.inFlight h) +
      (x.ledger.weigh (holds fun g => g.holder = h) +
        (x.ledger.weigh (Entry.beingSent h) + x.ledger.weigh (Entry.awaitsHandOff h))) := by
    simp only [weigh, load, counted_eq, Multiset.sum_map_add]
  unfold Audit.inFlight Audit.handedOut Audit.givenBack Audit.releasing Audit.awaitsHandOff
  omega

/-! ### Every run -/

lemma reachable_cleared {steps : List QuotaStep} {P : Pool Action Action.Reply Thread Audit}
    (h : (system ttl).Reachable (renewsInUse ttl)
      (newQuotaStore (QuotaWorld.initial.run steps)) P) : P.state.store.registry.Cleared := by
  have hsound := h.assuming fun P hP => (reachable_sound hP.free).1
  have hguarded := hsound.guarded (G := fun t a x => a.needs ≤ x.ledger.held (.hand t) ∧
      ∀ h, a = .retire h → x.store.registry.known h ≠ 0) ?_
  · refine ThreadSystem.Reachable.invariant (I := fun x => x.store.registry.Cleared)
      ⟨nofun, nofun⟩ ?_ ?_ hguarded
    · rintro t a c x r x' hx ⟨⟨hrenewed, hsound⟩, hneeds, hretire⟩ he
      obtain ⟨⟨r', s'⟩, heffect, heq⟩ := map_eq_some_iff.mp he
      obtain ⟨rfl, rfl⟩ := mk.inj heq
      rcases effect_cases heffect with ⟨-, s₁, hs₁, rfl⟩ | ⟨-, s₁, -, rfl⟩ | ⟨-, s₁, -, rfl⟩ |
        ⟨-, hs'⟩
      · exact hx.step hsound.counted.kept (hsound.counted.fresh_insert hneeds) hretire hrenewed hs₁
      · exact hx
      · exact hx
      · exact hx.of_eq (congrArg heap (State.step_registry hs'))
          (congrArg holders (State.step_registry hs'))
    · rintro e x x' hx - he
      obtain ⟨s₁, hs₁, rfl⟩ := map_eq_some_iff.mp he
      cases e with
      | clock ns =>
        cases hs₁
        exact hx.of_eq rfl rfl
      | statement step =>
        simp only [Event.step] at hs₁
        split at hs₁ <;> cases hs₁
        exact hx.of_eq rfl rfl
  · intro P hP t a k hp
    have hnext := (reachable_sound hP.free).2 t
    rw [hp] at hnext
    refine ⟨hnext.next.1, ?_⟩
    rintro h rfl
    exact known_ne_zero_of_retire hP.free hp

/-- In every state that callers, goroutines and `Close` can reach, `known` of a holder counts the
statements in flight, the slots that callers have, the releases that are queued or being sent and
the slots that have not been sent to a caller.  If no heartbeat retires a holder that counts
nothing, then a retired holder that counts nothing is being deleted or gone, and the heartbeats that
still find it in the map delete it. -/
theorem retired_holders_cleared {steps : List QuotaStep}
    {P : Pool Action Action.Reply Thread Audit} :
    ((system ttl).Reachable .free (newQuotaStore (QuotaWorld.initial.run steps)) P →
      ∀ h y, P.state.store.registry.heap h = some y →
        y.known = P.state.inFlight h + (P.state.handedOut h - P.state.givenBack h) +
          P.state.releasing h + P.state.awaitsHandOff h ∧ 0 ≤ y.known) ∧
    ((system ttl).Reachable (renewsInUse ttl) (newQuotaStore (QuotaWorld.initial.run steps)) P →
      ∀ h y, P.state.store.registry.heap h = some y → y.retired = true → y.known = 0 →
        (y.deleting = true ∨ y.gone = true) ∧
          (h ∈ P.state.store.registry.holders → y.deleting = true)) := by
  refine ⟨fun hreach h y hy => ?_, fun hreach h y hy hretired hknown => ?_⟩
  · have hx := (reachable_sound hreach).1
    have hknown : P.state.store.registry.known h = y.known := by rw [known, hy]; rfl
    refine ⟨hknown.symm.trans (hx.known_eq h), ?_⟩
    have hcounted := hx.counted.known h
    omega
  · have hcleared := reachable_cleared hreach
    have hmarked := hcleared.marked h y hy hretired hknown
    exact ⟨hmarked, fun hmem => hmarked.resolve_right fun hgone =>
      hcleared.removed h y hy hgone hmem⟩

/-- A caller waits for a slot, and the goroutine of its key registers a holder and is about to
acquire. -/
def beforeAcquire (limit : ℤ) : List (Label Thread Choice Operation Event) :=
  [.start (.caller 0) (.acquireSlot 3 ⟨"k", limit⟩), .act (.caller 0) {}, .act (.caller 0) {},
    .start (.routine 1) (.routine 3)] ++
  List.replicate 5 (.act (.routine 1) {}) ++ [.act (.routine 1) { owner := .ok "h" }] ++
  List.replicate 4 (.act (.routine 1) {})

/-- No heartbeat looks at an answer. -/
def withoutRenewals (P : Pool Action Action.Reply Thread Audit) :
    Label Thread Choice Operation Event → Bool
  | .act t _ =>
    match P.prog t with
    | some (.act (.renewed ..) _) => false
    | _ => true
  | _ => true

lemma allowed_withoutRenewals (P : Pool Action Action.Reply Thread Audit)
    (l : Label Thread Choice Operation Event) (h : withoutRenewals P l = true) :
    ThreadSystem.Allowed (renewsInUse ttl) P l := by
  cases l with
  | act t c =>
    rintro i k hp holder started e rfl
    simp [withoutRenewals, hp] at h
  | _ => exact trivial

/-- The acquire fails, and its holder is retired and settled. -/
def failedAcquire : List (Label Thread Choice Operation Event) :=
  beforeAcquire 2 ++ [.act (.routine 1) { outcome := .failed "timeout" true },
    .act (.routine 1) {}, .act (.routine 1) {}]

/-- The holder is marked then. -/
theorem failedAcquire_cleared :
    let P := (system 1000000000).run
      (idle (newQuotaStore (initial.run []))) failedAcquire
    ∃ y, P.state.store.registry.heap "h" = some y ∧ y.retired = true ∧
      y.known = P.state.inFlight "h" + (P.state.handedOut "h" - P.state.givenBack "h") +
        P.state.releasing "h" + P.state.awaitsHandOff "h" ∧
      (y.deleting = true ∨ y.gone = true) := by
  intro P
  have hfree : (system 1000000000).Reachable .free _ P := reachable_run _ _ _
  have hreach : (system 1000000000).Reachable (renewsInUse 1000000000) _ P :=
    reachable_run_of_passes _ allowed_withoutRenewals (by decide +kernel)
  have hholder : (P.state.store.registry.heap "h").map
      (fun y => (y.known, y.retired)) = some (0, true) := by decide +kernel
  clear_value P
  obtain ⟨y, hy, heq⟩ := map_eq_some_iff.mp hholder
  obtain ⟨hknown, hretired⟩ := mk.inj heq
  exact ⟨y, hy, hretired, (retired_holders_cleared.1 hfree "h" y hy).1,
    (retired_holders_cleared.2 hreach "h" y hy hretired hknown).1⟩

/-- The only slot is granted and sent to its caller, which releases it, and another goroutine sends
the release, so that the holder counts nothing. -/
def returnedSlot : List (Label Thread Choice Operation Event) :=
  beforeAcquire 1 ++ List.replicate 4 (.act (.routine 1) {}) ++
  List.replicate 3 (.act (.caller 0) {}) ++ [.start (.routine 2) (.routine 3),
    .act (.routine 2) {}, .act (.routine 2) { rows := [("h", [("k", 1)])] },
    .act (.routine 2) {}, .act (.routine 2) {}]

/-- The renewal of the holder is late then, and it fails after it has taken effect. -/
def failedRenewal : List (Label Thread Choice Operation Event) :=
  returnedSlot ++ [.env (.statement (.tick 900)), .env (.clock 1000000000),
    .start (.routine 0) (.routine 3)] ++
  List.replicate 3 (.act (.routine 0) {}) ++ [.act (.routine 0) { order := ["h"] },
    .act (.routine 0) {}, .act (.routine 0) {},
    .act (.routine 0) { outcome := .failed "timeout" true }, .act (.routine 0) {}]

/-- The next heartbeat, up to the section after its renewal. -/
def nextHeartbeat : List (Label Thread Choice Operation Event) :=
  List.replicate 4 (.act (.routine 0) {}) ++ [.act (.routine 0) { order := ["h"] }] ++
  List.replicate 4 (.act (.routine 0) {})

/-- The slot has been handed out and given back.  The holder is retired and counts nothing, but it
is not marked, and the next heartbeat renews it. -/
theorem failedRenewal_strands :
    let P := (system 1000000000).run
      (idle (newQuotaStore (initial.run []))) failedRenewal
    (system 1000000000).Reachable .free (newQuotaStore (initial.run [])) P ∧
      P.state.handedOut "h" = 1 ∧ P.state.givenBack "h" = 1 ∧
      P.state.store.registry.heap "h" = some ⟨0, 0, true, false, false⟩ ∧
      ((system 1000000000).run P nextHeartbeat).state.store.registry.heap "h" =
        some ⟨0, 1000000000, true, false, false⟩ :=
  ⟨reachable_run _ _ _, by decide +kernel, by decide +kernel, by decide +kernel, by decide +kernel⟩

end LlmdAsync.SqlFlow.QuotaStore
