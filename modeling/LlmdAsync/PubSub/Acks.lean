import LlmdAsync.PubSub.Workers

/-!
# A request is acknowledged only after its result is stored

Every value that reaches a callback is traced to the goroutine that sent it.  Only a goroutine that
waits for a publish sends `true`, only after the publish has succeeded, and only on a channel that
it has found under the correlation ID of the published result.  All channels found under an ID
belong to deliveries of the message with this ID, also if deliveries have replaced or removed each
other's channels.

The proof is by rely and guarantee: a callback relies on the others to leave the record of its
delivery alone, and the goroutine of a publish relies on them not to answer in its place.
-/

namespace LlmdAsync.PubSub

open List Option Function State ThreadSystem Prod

open FlowControl (GateReturn)

variable {inbox : ℕ → Subscription × Message} {defaultTopicID : String}

/-! ### What is known of values and deliveries -/

/-- A value sent to a callback is in its channel or in its hands. -/
inductive Place where
  | channel (d : ℕ)
  | callback (d : ℕ)

/-- The delivery that the value is for. -/
def Place.delivery : Place → ℕ
  | .channel d => d
  | .callback d => d

/-- The value at a place. -/
def State.wordAt (s : State) : Place → Option Word
  | .channel d => s.slots d
  | .callback d => (s.deliveries d).word

/-- The goroutine has learned that its publish has succeeded. -/
def Waiting.succeeded : Waiting → Bool
  | .pending => false
  | .answered published => published
  | .reported published => published

/-- A value for a delivery says truthfully whether a result of its message was published. -/
structure Traced (inbox : ℕ → Subscription × Message) (s : State) (d : ℕ) (w : Word) : Prop where
  of_published : w.published = true → ∃ n, w.sender = .publishWaiter n
  of_waiter : ∀ n, w.sender = .publishWaiter n → s.waiting n = .reported w.published ∧
    ∃ p, s.publishes[n]? = some p ∧ p.result.routing.transportCorrelationID = (inbox d).2.id

/-- The body of the message decodes. -/
def Decodes (inbox : ℕ → Subscription × Message) (d : ℕ) : Prop :=
  ((inbox d).1.decode (inbox d).2.data).isSome = true

/-- A delivery is settled at most once, and acknowledged only if the callback was told so. -/
structure Delivery.Sound (decodes : Prop) (x : Delivery) : Prop where
  once : x.acks + x.nacks + x.nackPending.toNat ≤ 1
  told : decodes → 0 < x.acks → x.declined = false ∧ ∃ t, x.word = some ⟨true, t⟩

variable {n d : ℕ} {p : Publish} {s s' : State} {t : Thread}

lemma Delivery.Sound.of_acks {decodes : Prop} {x : Delivery} (hacks : x.acks = 0)
    (honce : x.nacks + x.nackPending.toNat ≤ 1) : x.Sound decodes :=
  ⟨by omega, fun _ h => absurd h (by omega)⟩

/-- The invariant. -/
structure Sound (inbox : ℕ → Subscription × Message) (s : State) : Prop where
  mapped : ∀ id d, s.resultChannels id = some d → (inbox d).2.id = id
  heard : ∀ n, (s.waiting n).succeeded = true → n ∈ s.accepted
  traced : ∀ p w, s.wordAt p = some w → Traced inbox s p.delivery w
  unique : ∀ p q n b b', s.wordAt p = some ⟨b, .publishWaiter n⟩ →
    s.wordAt q = some ⟨b', .publishWaiter n⟩ → p = q
  settled : ∀ d, (s.deliveries d).Sound (Decodes inbox d)

/-! ### Steps that keep the invariant -/

lemma getElem?_keeps {l l' : List Publish} (h : l <+: l')
    (hp : l[n]? = some p) : l'[n]? = some p := by
  obtain ⟨hlt, rfl⟩ := List.getElem?_eq_some_iff.mp hp
  exact List.prefix_iff_getElem?.mp h n hlt

lemma Traced.mono {w : Word} (h : Traced inbox s d w)
    (hwait : ∀ n b, s.waiting n = .reported b → s'.waiting n = .reported b)
    (hpub : s.publishes <+: s'.publishes) : Traced inbox s' d w where
  of_published := h.of_published
  of_waiter := by
    intro n hn
    obtain ⟨hrep, p, hp, hid⟩ := h.of_waiter n hn
    exact ⟨hwait n _ hrep, p, getElem?_keeps hpub hp, hid⟩

namespace Sound

variable {s s' : State}

lemma mono (h : Sound inbox s) (hmap : s'.resultChannels = s.resultChannels)
    (hslots : s'.slots = s.slots) (hdel : s'.deliveries = s.deliveries)
    (hwait : s'.waiting = s.waiting) (hpub : s.publishes <+: s'.publishes)
    (hacc : s.accepted ⊆ s'.accepted) : Sound inbox s' := by
  have hword : s'.wordAt = s.wordAt := by
    funext p
    cases p with
    | channel d => exact congrFun hslots d
    | callback d => exact congrArg Delivery.word (congrFun hdel d)
  exact {
    mapped := hmap ▸ h.mapped
    heard := fun n hn => hacc (h.heard n (hwait ▸ hn))
    traced := fun p w hw => (h.traced p w (hword ▸ hw)).mono (fun n b hb => hwait ▸ hb) hpub
    unique := hword ▸ h.unique
    settled := hdel ▸ h.settled }

lemma revise (h : Sound inbox s) {d : ℕ} {f : Delivery → Delivery}
    (hword : (f (s.deliveries d)).word = (s.deliveries d).word)
    (hd : (f (s.deliveries d)).Sound (Decodes inbox d)) : Sound inbox (s.revise d f) := by
  have hat : (s.revise d f).wordAt = s.wordAt := by
    funext p
    cases p with
    | channel e => rfl
    | callback e =>
      by_cases he : e = d
      · subst he
        simpa [State.wordAt, State.revise] using hword
      · simp [State.wordAt, State.revise, update_of_ne he]
  exact {
    mapped := h.mapped
    heard := h.heard
    traced := fun p w hw => (h.traced p w (hat ▸ hw)).mono (fun _ _ hb => hb) (prefix_refl _)
    unique := hat ▸ h.unique
    settled := by
      intro e
      by_cases he : e = d
      · subst he
        simpa [State.revise] using hd
      · simpa [State.revise, update_of_ne he] using h.settled e }

lemma storeChannel (h : Sound inbox s) (d : ℕ) : Sound inbox
    { s with resultChannels := Function.update s.resultChannels (inbox d).2.id (some d) } where
  mapped := by
    intro id e hmap
    by_cases hid : id = (inbox d).2.id
    · subst hid
      have hde : d = e := by simpa using hmap
      rw [hde]
    · exact h.mapped id e (by simpa [update_of_ne hid] using hmap)
  heard := h.heard
  traced := fun p w hw => (h.traced p w hw).mono (fun _ _ hb => hb) (prefix_refl _)
  unique := h.unique
  settled := h.settled

lemma deleteChannel (h : Sound inbox s) (id : String) : Sound inbox
    { s with resultChannels := Function.update s.resultChannels id none } where
  mapped := by
    intro id' e hmap
    by_cases hid : id' = id
    · subst hid
      simp at hmap
    · exact h.mapped id' e (by simpa [update_of_ne hid] using hmap)
  heard := h.heard
  traced := fun p w hw => (h.traced p w hw).mono (fun _ _ hb => hb) (prefix_refl _)
  unique := h.unique
  settled := h.settled

lemma receive (h : Sound inbox s) {d : ℕ} {w : Word} (hslot : s.slots d = some w)
    (hfresh : (s.deliveries d).acks = 0) : Sound inbox
      ({ s with slots := Function.update s.slots d none }.revise d
        fun x => { x with word := some w }) := by
  -- What is at a place now was at a place before, and was at this one unless it is the value taken.
  set s' := { s with slots := update s.slots d none }.revise d
    fun x => { x with word := some w } with hs'
  have hat : ∀ p v, s'.wordAt p = some v →
      (p = .callback d ∧ v = w) ∨
      (p ≠ .callback d ∧ p ≠ .channel d ∧ s.wordAt p = some v) := by
    intro p v hv
    cases p with
    | channel e =>
      by_cases he : e = d
      · subst he
        simp [hs', State.wordAt, State.revise] at hv
      · refine .inr ⟨by simp, by simpa using he, ?_⟩
        simpa [hs', State.wordAt, State.revise, update_of_ne he] using hv
    | callback e =>
      by_cases he : e = d
      · subst he
        refine .inl ⟨rfl, ?_⟩
        simpa [hs', State.wordAt, State.revise, eq_comm] using hv
      · refine .inr ⟨by simpa using he, by simp, ?_⟩
        simpa [hs', State.wordAt, State.revise, update_of_ne he] using hv
  exact {
    mapped := h.mapped
    heard := h.heard
    traced := by
      intro p v hv
      rcases hat p v hv with ⟨rfl, rfl⟩ | ⟨-, -, hold⟩
      · exact (h.traced (.channel d) v hslot).mono (fun _ _ hb => hb) (prefix_refl _)
      · exact (h.traced p v hold).mono (fun _ _ hb => hb) (prefix_refl _)
    unique := by
      intro p q n b b' hp hq
      rcases hat p _ hp with ⟨rfl, rfl⟩ | ⟨-, hpc, hp⟩ <;>
        rcases hat q _ hq with ⟨rfl, hw⟩ | ⟨-, hqc, hq⟩
      · rfl
      · exact absurd (h.unique q (.channel d) n _ _ hq hslot) hqc
      · exact absurd (h.unique p (.channel d) n _ _ hp (hw ▸ hslot)) hpc
      · exact h.unique p q n b b' hp hq
    settled := by
      intro e
      by_cases he : e = d
      · subst he
        have hold := h.settled e
        refine ⟨by simpa [hs', State.revise] using hold.once, fun _ hack => ?_⟩
        simp [hs', State.revise, hfresh] at hack
      · simpa [hs', State.revise, update_of_ne he] using h.settled e }

lemma signal (h : Sound inbox s) {c : ℕ} {w : Word} (hslot : s.slots c = none) {wait : ℕ → Waiting}
    (hwait : ∀ n b, s.waiting n = .reported b → wait n = .reported b)
    (hheard : ∀ n, (wait n).succeeded = (s.waiting n).succeeded)
    (hnew : ∀ n b, w.sender = .publishWaiter n → s.waiting n ≠ .reported b)
    (hw : Traced inbox { s with waiting := wait } c w) : Sound inbox
      { s with slots := Function.update s.slots c (some w), waiting := wait } := by
  have hat : ∀ p v,
      ({ s with slots := update s.slots c (some w), waiting := wait } : State).wordAt p =
        some v → (p = .channel c ∧ v = w) ∨ s.wordAt p = some v := by
    intro p v hv
    cases p with
    | channel e =>
      by_cases he : e = c
      · subst he
        exact .inl ⟨rfl, by simpa [wordAt, eq_comm] using hv⟩
      · exact .inr (by simpa [wordAt, update_of_ne he] using hv)
    | callback e => exact .inr hv
  -- The sender has not reported yet, so no other value can be from it.
  have hother : ∀ p n b, w.sender = .publishWaiter n → s.wordAt p ≠ some ⟨b, .publishWaiter n⟩ :=
    fun p n b hn hp => hnew n b hn ((h.traced p _ hp).of_waiter n rfl).1
  exact {
    mapped := h.mapped
    heard := fun n hn => h.heard n (hheard n ▸ hn)
    traced := by
      intro p v hv
      rcases hat p v hv with ⟨rfl, rfl⟩ | hold
      · exact ⟨hw.of_published, hw.of_waiter⟩
      · exact (h.traced p v hold).mono hwait (prefix_refl _)
    unique := by
      intro p q n b b' hp hq
      rcases hat p _ hp with ⟨rfl, rfl⟩ | hp <;> rcases hat q _ hq with ⟨rfl, hwq⟩ | hq
      · rfl
      · exact absurd hq (hother q n b' rfl)
      · exact absurd hp (hother p n b (hwq ▸ rfl))
      · exact h.unique p q n b b' hp hq
    settled := h.settled }

lemma awaitPublish (h : Sound inbox s) {n : ℕ} {ok : Bool} (hn : s.waiting n = .pending)
    (hok : ok = true → n ∈ s.accepted) : Sound inbox
      { s with waiting := Function.update s.waiting n (.answered ok) } where
  mapped := h.mapped
  heard := by
    intro m hm
    by_cases hmn : m = n
    · subst hmn
      exact hok (by simpa [Waiting.succeeded] using hm)
    · exact h.heard m (by simpa [update_of_ne hmn] using hm)
  traced := by
    refine fun p w hw => (h.traced p w hw).mono (fun m b hb => ?_) (prefix_refl _)
    have hmn : m ≠ n := by
      rintro rfl
      rw [hn] at hb
      cases hb
    simpa [update_of_ne hmn] using hb
  unique := h.unique
  settled := h.settled

end Sound

lemma sound_init : Sound inbox .init where
  mapped := nofun
  heard := nofun
  traced := fun p w h => by cases p <;> cases h
  unique := fun p q n b b' h => by cases p <;> cases h
  settled := fun d => .of_acks rfl (Nat.zero_le 1)

/-! ### What the goroutines rely on -/

/-- How far a callback has come. -/
inductive Stage where
  | fresh
  | opened
  | declined
  | told (published : Bool)
  | settled
deriving DecidableEq

/-- What the callback knows of its delivery. -/
def Stage.Describes : Stage → Delivery → Prop
  | .fresh, x => x = {}
  | .opened, x => x = { opened := true }
  | .declined, x => x = { opened := true, declined := true }
  | .told published, x => ∃ t, x = { opened := true, word := some ⟨published, t⟩ }
  | .settled, _ => True

/-- What a goroutine relies on. -/
def Rely : Thread → State → State → Prop
  | .callback d, s, s' => ∀ g : Stage, g.Describes (s.deliveries d) → g.Describes (s'.deliveries d)
  | .publishWaiter n, s, s' => s'.waiting n = s.waiting n ∧ s.publishes <+: s'.publishes
  | _, _, _ => True

instance (t : Thread) : IsPreorder State (Rely t) where
  refl s := by
    cases t with
    | callback d => exact fun _ h => h
    | publishWaiter n => exact ⟨rfl, List.prefix_refl _⟩
    | _ => exact trivial
  trans s₁ s₂ s₃ h h' := by
    cases t with
    | callback d => exact fun g hg => h' g (h g hg)
    | publishWaiter n => exact ⟨h'.1.trans h.1, h.2.trans h'.2⟩
    | _ => exact trivial

lemma rely_of (hdel : ∀ d, t = .callback d → s'.deliveries d = s.deliveries d)
    (hwait : ∀ n, t = .publishWaiter n → s'.waiting n = s.waiting n)
    (hpub : s.publishes <+: s'.publishes) : Rely t s s' := by
  cases t with
  | callback d => exact fun g hg => hdel d rfl ▸ hg
  | publishWaiter n => exact ⟨hwait n rfl, hpub⟩
  | _ => exact trivial

lemma rely_revise (ht : t ≠ .callback d) (s : State)
    (f : Delivery → Delivery) : Rely t s (s.revise d f) := by
  refine rely_of (fun e he => ?_) (fun _ _ => rfl) (prefix_refl _)
  have hed : e ≠ d := by
    rintro rfl
    exact ht he
  simp [revise, update_of_ne hed]

lemma rely_channels (t : Thread) (s : State) (m : String → Option ℕ) (slots : ℕ → Option Word) :
    Rely t s { s with resultChannels := m, slots := slots } :=
  rely_of (fun _ _ => rfl) (fun _ _ => rfl) (prefix_refl _)

/-! ### The callback -/

/-- Where a callback may perform an action. -/
def Stage.Allows (sub : Subscription) (msg : Message) : FlowAction → Stage → Prop
  | .callback (.storeChannel id), g => g = .fresh ∧ id = msg.id
  | .callback (.apply _), g => g = .opened
  | .callback (.receive _), g => g = .opened
  | .callback (.ack _), g => g = .told true ∨ g = .fresh ∧ sub.decode msg.data = none
  | .callback (.nack _), g => g = .told false ∨ g = .declined
  | .callback (.nackLater _), g => g = .declined
  | .callback _, _ => True
  | _, _ => False

/-- How far the callback has come after an action. -/
def Stage.after : (a : FlowAction) → a.Reply → Stage → Stage
  | .callback (.storeChannel _), _, _ => .opened
  | .callback (.apply _), r, _ => if declines r then .declined else .opened
  | .callback (.receive _), published, _ => .told published
  | .callback (.ack _), _, _ => .settled
  | .callback (.nack _), _, _ => .settled
  | .callback (.nackLater _), _, _ => .settled
  | _, _, g => g

section Callback

variable (sub : Subscription) (msg : Message)

/-- The callback takes its steps in order. -/
abbrev InOrder {α : Type} (p : Code α) (g : Stage) : Prop :=
  p.Follows (fun a => Stage.Allows sub msg (.callback a)) (fun a => Stage.after (.callback a))
    (fun _ _ => True) g

lemma inOrder_awaitResult : InOrder sub msg (awaitResult msg) .opened := by
  refine .step rfl fun published => ?_
  change InOrder sub msg (if published then _ else _) (.told published)
  cases published with
  | true | false => exact ⟨.inl rfl, fun _ => trivial⟩

lemma inOrder_handleGated (ir : InternalRequest) (r : GateReturn) :
    InOrder sub msg (handleGated msg ir r) (if declines r then .declined else .opened) := by
  rw [handleGated]
  cases hv : r.verdict with
  | error e => exact ⟨.inr (by simp [declines, hv]), fun _ => trivial⟩
  | ok v =>
    have hd : declines r = (v.action == .refuse) := by simp [declines, hv]
    cases ha : v.action with
    | refuse =>
      simp only [ha]
      exact ⟨by simp [Stage.Allows, hd, ha], fun _ => trivial⟩
    | _ =>
      have hopen : (if declines r then Stage.declined else Stage.opened) = .opened := by
        rw [hd, ha]
        rfl
      simp only [hopen, ha]
      exact .step trivial fun _ => inOrder_awaitResult sub msg

lemma inOrder_callback : InOrder sub msg (callback sub msg) .fresh := by
  rw [callback]
  split
  next hnone =>
    exact ⟨.inr ⟨rfl, hnone⟩, fun _ => trivial⟩
  next wire _ =>
    refine .step ⟨rfl, rfl⟩ fun _ => Prog.Follows.step rfl fun r => ?_
    refine .bind ((inOrder_handleGated sub msg _ r).weaken fun _ g _ => ?_)
    exact .step trivial fun _ => ⟨trivial, fun _ => trivial⟩

lemma follows_receiveCallback : (receiveCallback sub msg).Follows (Stage.Allows sub msg) Stage.after
    (fun _ _ => True) .fresh := by
  refine (Prog.Follows.embed (A := Eq) ?_ (inOrder_callback sub msg) rfl).weaken
    fun _ _ _ => trivial
  rintro a g _ hpre rfl
  exact ⟨hpre, fun r => rfl⟩

end Callback

variable {g : Stage}

lemma keeps_revise {f : Delivery → Delivery} {x : Delivery} (hs : Sound inbox s)
    (hx : s.deliveries d = x) (hword : (f x).word = x.word) (hd : (f x).Sound (Decodes inbox d))
    (hg : g.Describes (f x)) :
    ThreadSystem.Keeps (Sound inbox) Rely (.callback d) s (s.revise d f) ∧
      g.Describes ((s.revise d f).deliveries d) := by
  subst hx
  refine ⟨⟨hs.revise hword hd, fun u hu => rely_revise hu s f⟩, ?_⟩
  simpa [revise] using hg

lemma keeps_of_same (hs : Sound inbox s') (hdel : s'.deliveries = s.deliveries)
    (hwait : s'.waiting = s.waiting) (hpub : s'.publishes = s.publishes)
    (hg : g.Describes (s.deliveries d)) :
    ThreadSystem.Keeps (Sound inbox) Rely t s s' ∧ g.Describes (s'.deliveries d) := by
  refine ⟨⟨hs, fun u _ => rely_of (fun e _ => congrFun hdel e) (fun n _ => congrFun hwait n) ?_⟩,
    ?_⟩
  · exact hpub ▸ prefix_refl _
  · exact hdel ▸ hg

lemma callback_step {a : Action} {c : Choice} {r : a.Reply}
    (hpre : Stage.Allows (inbox d).1 (inbox d).2 (.callback a) g)
    (hg : g.Describes (s.deliveries d)) (hs : Sound inbox s)
    (hexec : execCallback d a c s = some (r, s')) :
    ThreadSystem.Keeps (Sound inbox) Rely (.callback d) s s' ∧
      (Stage.after (.callback a) r g).Describes (s'.deliveries d) := by
  cases a with
  | storeChannel id =>
    obtain ⟨rfl, rfl⟩ := hpre
    cases hexec
    obtain ⟨⟨hsound, hrely⟩, hdesc⟩ := keeps_revise (f := fun x => { x with opened := true })
      (g := .opened) (hs.storeChannel d) hg rfl (.of_acks rfl (Nat.zero_le 1)) rfl
    exact ⟨⟨hsound, fun u hu => trans_of (Rely u) (rely_channels u s _ _) (hrely u hu)⟩, hdesc⟩
  | deleteChannel id =>
    cases hexec
    exact keeps_of_same (hs.deleteChannel id) rfl rfl rfl hg
  | apply req =>
    obtain rfl := hpre
    obtain ⟨rfl, rfl⟩ := mk.inj (some.inj hexec)
    refine keeps_revise hs hg rfl (.of_acks rfl (Nat.zero_le 1)) ?_
    cases hdec : declines c.gate with
    | true | false => simp [Stage.after, Stage.Describes, hdec]
  | releaseGates releases =>
    cases hexec
    exact keeps_of_same hs rfl rfl rfl hg
  | receive id =>
    obtain rfl := hpre
    have hx : s.deliveries d = { opened := true } := hg
    simp only [execCallback] at hexec
    split at hexec
    · cases hexec
    next w hslot =>
      obtain ⟨rfl, rfl⟩ := mk.inj (some.inj hexec)
      refine ⟨⟨hs.receive hslot (by rw [hx]), fun u hu => ?_⟩, w.sender, ?_⟩
      · exact trans_of (Rely u) (rely_channels u s _ _) (rely_revise hu _ _)
      · simp [revise, hx]
  | sendRequest ir | sendResult result =>
    cases hexec
    refine keeps_of_same (hs.mono rfl rfl rfl rfl (prefix_refl _) ?_) rfl rfl rfl hg
    exact List.Subset.refl _
  | ack id =>
    cases hexec
    rcases hpre with rfl | ⟨rfl, hnone⟩
    · obtain ⟨t, hx⟩ := hg
      exact keeps_revise hs hx rfl ⟨le_rfl, fun _ _ => ⟨rfl, t, rfl⟩⟩ trivial
    · -- A message that does not decode is acknowledged at once.
      refine keeps_revise hs hg rfl ⟨le_rfl, fun hdec => ?_⟩ trivial
      rw [Decodes, hnone] at hdec
      cases hdec
  | nack id =>
    cases hexec
    rcases hpre with rfl | rfl
    · obtain ⟨t, hx⟩ := hg
      exact keeps_revise hs hx rfl (.of_acks rfl le_rfl) trivial
    · exact keeps_revise hs hg rfl (.of_acks rfl le_rfl) trivial
  | nackLater id =>
    obtain rfl := hpre
    cases hexec
    exact keeps_revise hs hg rfl (.of_acks rfl le_rfl) trivial

lemma safe_receiveCallback (hfresh : s.deliveries d = {}) :
    (flow inbox defaultTopicID).Safe .free (Sound inbox) Rely (fun _ _ _ => True) (.callback d)
      (receiveCallback (inbox d).1 (inbox d).2) (fun _ _ => True) s := by
  refine ((follows_receiveCallback (inbox d).1 (inbox d).2).safe
    (A := fun g s => g.Describes (s.deliveries d)) ?_ ?_ hfresh).weaken fun _ _ _ => trivial
  · exact fun g s s' hg hR => hR g hg
  · intro i g s₁ c r s₂ hpre hg hs _ hexec
    cases i with
    | callback a => exact ⟨trivial, callback_step hpre hg hs hexec⟩
    | _ => exact hpre.elim

/-! ### The workers -/

/-- What the workers do: they say `false`, and they do not answer for the server. -/
def IsWork : FlowAction → Prop
  | .callback _ => False
  | .awaitPublish _ => False
  | .signal _ published => published = false
  | _ => True

lemma always_signalPublished (id : String) : (signalPublished id false).Always IsWork := by
  refine .bind ⟨trivial, fun _ => trivial⟩ fun value => ?_
  cases value with
  | none => exact trivial
  | some channel => exact ⟨rfl, fun _ => trivial⟩

lemma always_resultWorker (rounds : ℕ) :
    (resultWorker defaultTopicID rounds).Always IsWork := by
  induction rounds with
  | zero => exact trivial
  | succ rounds ih =>
    refine .bind ⟨trivial, fun _ => trivial⟩ fun next => ?_
    cases next with
    | none => exact trivial
    | some msg =>
      refine .bind ?_ fun _ => ih
      rw [handleResult]
      split
      · exact always_signalPublished _
      · exact ⟨trivial, fun _ => trivial⟩

lemma always_addMsgToRetryQueue (rounds : ℕ) : (addMsgToRetryQueue rounds).Always IsWork := by
  induction rounds with
  | zero => exact trivial
  | succ rounds ih =>
    refine .bind ⟨trivial, fun _ => trivial⟩ fun next => ?_
    cases next with
    | none => exact trivial
    | some msg =>
      refine .bind ?_ fun _ => ih
      cases msg with
      | none => exact trivial
      -- `handleRetry` looks up the channel and sends on it like `signalPublished`.
      | some ir => exact always_signalPublished ir.routing.transportCorrelationID

lemma spares_lists (hs : Sound inbox s) (hmap : s'.resultChannels = s.resultChannels)
    (hslots : s'.slots = s.slots) (hdel : s'.deliveries = s.deliveries)
    (hwait : s'.waiting = s.waiting) (hpub : s.publishes <+: s'.publishes)
    (hacc : s.accepted ⊆ s'.accepted) :
    ThreadSystem.Spares (Sound inbox) Rely s s' :=
  ⟨hs.mono hmap hslots hdel hwait hpub hacc,
    fun _ => rely_of (fun d _ => congrFun hdel d) (fun n _ => congrFun hwait n) hpub⟩

lemma work_step (ht : t = .resultWorker ∨ t = .retryWorker) {i : FlowAction}
    {c : Choice} {r : i.Reply} (hi : IsWork i) (hs : Sound inbox s)
    (hexec : exec t i c s = some (r, s')) : ThreadSystem.Keeps (Sound inbox) Rely t s s' := by
  cases i with
  | callback a | awaitPublish n => exact hi.elim
  | nextResult | nextRetry =>
    simp only [exec] at hexec
    split at hexec
    · split at hexec
      · cases hexec
        refine ThreadSystem.Spares.keeps ?_ t
        exact spares_lists hs rfl rfl rfl rfl (prefix_refl _) (List.Subset.refl _)
      · cases hexec
    · split at hexec
      · cases hexec
      · cases hexec
        refine ThreadSystem.Spares.keeps ?_ t
        exact spares_lists hs rfl rfl rfl rfl (prefix_refl _) (List.Subset.refl _)
  | publish topicID result =>
    cases hexec
    refine ThreadSystem.Spares.keeps ?_ t
    exact spares_lists hs rfl rfl rfl rfl (prefix_append _ _) (List.Subset.refl _)
  | loadChannel id =>
    cases hexec
    refine ThreadSystem.Spares.keeps ?_ t
    exact spares_lists hs rfl rfl rfl rfl (prefix_refl _) (List.Subset.refl _)
  | signal channel published =>
    obtain rfl : published = false := hi
    have hsender : ∀ n, t ≠ .publishWaiter n := by
      rintro n rfl
      rcases ht with ht | ht <;> cases ht
    have hreport : ∀ s : State, report t false s = s := by
      intro s
      rcases ht with rfl | rfl <;> rfl
    simp only [exec, hreport] at hexec
    split at hexec
    · cases hexec
    next hslot =>
      cases hexec
      refine ⟨?_, fun u _ => rely_channels u s _ _⟩
      refine hs.signal hslot (fun _ _ hb => hb) (fun _ => rfl) (fun n _ hn => ?_)
        ⟨?_, fun n hn => ?_⟩
      · exact absurd hn (hsender n)
      · exact nofun
      · exact absurd hn (hsender n)

lemma safe_work (ht : t = .resultWorker ∨ t = .retryWorker) {p : FlowCode Unit}
    (hp : p.Always IsWork) (s : State) :
    (flow inbox defaultTopicID).Safe .free (Sound inbox) Rely (fun _ _ _ => True) t p
      (fun _ _ => True) s :=
  ThreadSystem.Safe.of_always (A := fun _ => True) (fun _ _ _ _ => trivial)
    (fun _ hi _ _ _ _ _ hs _ hexec => ⟨trivial, work_step ht hi hs hexec, trivial⟩) hp
    trivial

/-! ### The goroutines of the publishes -/

lemma publishWaiter_eq (n : ℕ) (id : String) :
    publishWaiter n id = perform (.awaitPublish n) >>= fun ok : Bool => signalPublished id ok := by
  rw [publishWaiter]
  congr 1
  funext ok
  cases ok with
  | true | false => rfl

lemma safe_signalPublished {ok : Bool} (hwait : s.waiting n = .answered ok)
    (hp : s.publishes[n]? = some p) :
    (flow inbox defaultTopicID).Safe .free (Sound inbox) Rely (fun _ _ _ => True)
      (.publishWaiter n) (signalPublished p.result.routing.transportCorrelationID ok)
      (fun _ _ => True) s := by
  refine .step fun s₁ c r s₂ hR hs _ hexec => ?_
  obtain ⟨rfl, rfl⟩ := mk.inj (some.inj hexec)
  refine ⟨trivial, (ThreadSystem.Spares.refl hs).keeps _, ?_⟩
  cases hload : s₁.resultChannels p.result.routing.transportCorrelationID with
  | none => exact trivial
  | some d =>
    have hid := hs.mapped _ _ hload
    refine ThreadSystem.Safe.perform fun s₃ c r s₄ hR' hs₃ _ hexec => ⟨trivial, ?_, trivial⟩
    have hwait₃ : s₃.waiting n = .answered ok := hR'.1.trans (hR.1.trans hwait)
    have hp₃ := getElem?_keeps (hR.2.trans hR'.2) hp
    change exec (.publishWaiter n) (.signal d ok) c s₃ = some (r, s₄) at hexec
    simp only [exec, report] at hexec
    split at hexec
    · cases hexec
    next hslot =>
      cases hexec
      refine ⟨hs₃.signal hslot ?_ ?_ ?_ ⟨fun _ => ⟨n, rfl⟩, ?_⟩, fun u hu => ?_⟩
      · intro m b hm
        have hmn : m ≠ n := by
          rintro rfl
          rw [hwait₃] at hm
          cases hm
        rwa [update_of_ne hmn]
      · intro m
        by_cases hmn : m = n
        · subst hmn
          rw [update_self, hwait₃]
          rfl
        · rw [update_of_ne hmn]
      · intro m b hm
        obtain rfl : n = m := by injection hm
        rw [hwait₃]
        nofun
      · intro m hm
        obtain rfl : n = m := by injection hm
        exact ⟨update_self _ _ _, p, hp₃, hid.symm⟩
      · refine rely_of (fun _ _ => rfl) (fun m hm => ?_) (prefix_refl _)
        have hmn : m ≠ n := by
          rintro rfl
          exact hu hm
        exact update_of_ne hmn _ _

lemma safe_publishWaiter (hwait : s.waiting n = .pending) (hp : s.publishes[n]? = some p) :
    (flow inbox defaultTopicID).Safe .free (Sound inbox) Rely (fun _ _ _ => True)
      (.publishWaiter n) (publishWaiter n p.result.routing.transportCorrelationID)
      (fun _ _ => True) s := by
  rw [publishWaiter_eq]
  refine .step fun s₁ c r s₂ hR hs _ hexec => ?_
  change exec (.publishWaiter n) (.awaitPublish n) c s₁ = some (r, s₂) at hexec
  simp only [exec] at hexec
  split at hexec
  · cases hexec
  next hok =>
    obtain ⟨rfl, rfl⟩ := mk.inj (some.inj hexec)
    have hacc : c.ok = true → n ∈ s₁.accepted := by simpa using hok
    refine ⟨trivial, ⟨hs.awaitPublish (hR.1.trans hwait) hacc, fun u hu => ?_⟩, ?_⟩
    · refine rely_of (fun _ _ => rfl) (fun m hm => ?_) (prefix_refl _)
      have hmn : m ≠ n := by
        rintro rfl
        exact hu hm
      exact update_of_ne hmn _ _
    · exact safe_signalPublished (update_self _ _ _) (getElem?_keeps hR.2 hp)

/-! ### All of them -/

lemma env_step {e : Event} (hs : Sound inbox s) (henv : env e s = some s') :
    ThreadSystem.Spares (Sound inbox) Rely s s' := by
  cases e with
  | finish i outcome =>
    simp only [env] at henv
    split at henv
    · cases henv
    · cases outcome with
      | result id payload errorCode errorMessage | retry =>
        obtain rfl := some.inj henv
        exact spares_lists hs rfl rfl rfl rfl (prefix_refl _) (List.Subset.refl _)
  | emptyRetry | shutdown =>
    obtain rfl := some.inj henv
    exact spares_lists hs rfl rfl rfl rfl (prefix_refl _) (List.Subset.refl _)
  | accept n =>
    simp only [env] at henv
    split at henv
    · obtain rfl := some.inj henv
      exact spares_lists hs rfl rfl rfl rfl (prefix_refl _) (subset_cons_self _ _)
    · cases henv
  | delayedNack d =>
    simp only [env] at henv
    split at henv
    next hpending =>
      obtain rfl := some.inj henv
      have honce := (hs.settled d).once
      rw [hpending, Bool.toNat_true] at honce
      have hacks : (s.deliveries d).acks = 0 := by omega
      have hnacks : (s.deliveries d).nacks + 1 ≤ 1 := by omega
      refine ⟨hs.revise rfl (.of_acks hacks hnacks), fun u => ?_⟩
      by_cases hu : u = .callback d
      · -- The callback has returned: at any earlier stage no delayed `Nack` is waiting.
        subst hu
        intro g hg
        cases g with
        | settled => exact trivial
        | told b =>
          obtain ⟨t, hx⟩ := hg
          rw [hx] at hpending
          cases hpending
        | _ =>
          rw [show s.deliveries d = _ from hg] at hpending
          cases hpending
      · exact rely_revise hu s _
    · cases henv

lemma sound_of_reachable {P : Pool FlowAction FlowAction.Reply Thread State}
    (h : (flow inbox defaultTopicID).Reachable .free .init P) : Sound inbox P.state := by
  refine (ThreadSystem.Reachable.safe (E := fun _ _ => True) (R := Rely) (G := fun _ _ _ => True)
    (fun _ _ _ _ h => h) ⟨sound_init, fun _ => trivial⟩ ?_ ?_ h).1
  · intro t o s hs _ _ hstart
    change starts t o s = true at hstart
    change (flow inbox defaultTopicID).Safe _ _ _ _ _ (program inbox defaultTopicID t o) _ _
    cases t with
    | callback d =>
      cases o with
      | receive => exact safe_receiveCallback (of_decide_eq_true hstart)
      | _ => cases hstart
    | resultWorker =>
      cases o with
      | work rounds => exact safe_work (.inl rfl) (always_resultWorker rounds) s
      | _ => cases hstart
    | publishWaiter n =>
      cases o with
      | await id =>
        simp only [starts] at hstart
        split at hstart
        · cases hstart
        next p hp =>
          rw [Bool.and_eq_true, decide_eq_true_iff, decide_eq_true_iff] at hstart
          obtain ⟨hwait, rfl⟩ := hstart
          exact safe_publishWaiter hwait hp
      | _ => cases hstart
    | retryWorker =>
      cases o with
      | work rounds => exact safe_work (.inr rfl) (always_addMsgToRetryQueue rounds) s
      | _ => cases hstart
  · intro e s s' hs _ henv
    exact ⟨(env_step hs henv).1, fun t => (env_step hs henv).2 t⟩

/-- In every run a message whose body decodes is acknowledged only if the server has accepted the
publish of a result whose correlation ID is the message's; the value that made the callback do so
came from the goroutine of that publish, and no other callback gets it.  Hence a refusal or an error
of the gate, a retry, a missing result topic and a failed publish never lead to an `Ack`.  A
delivery is settled at most once. -/
theorem acked_only_after_publish (inbox : ℕ → Subscription × Message) (defaultTopicID : String)
    {P : Pool FlowAction FlowAction.Reply Thread State}
    (h : (flow inbox defaultTopicID).Reachable .free .init P) :
    (∀ d, Decodes inbox d → 0 < (P.state.deliveries d).acks →
      ∃ n p, (P.state.deliveries d).word = some ⟨true, .publishWaiter n⟩ ∧
        P.state.publishes[n]? = some p ∧ n ∈ P.state.accepted ∧
        p.result.routing.transportCorrelationID = (inbox d).2.id) ∧
    (∀ d e n b b', (P.state.deliveries d).word = some ⟨b, .publishWaiter n⟩ →
      (P.state.deliveries e).word = some ⟨b', .publishWaiter n⟩ → d = e) ∧
    (∀ d, Decodes inbox d → (P.state.deliveries d).declined = true →
      (P.state.deliveries d).acks = 0) ∧
    (∀ d w, Decodes inbox d → (P.state.deliveries d).word = some w →
      (w.sender = .retryWorker ∨ w.sender = .resultWorker ∨
        ∃ n, w.sender = .publishWaiter n ∧ (P.state.waiting n).succeeded = false) →
      (P.state.deliveries d).acks = 0) ∧
    ∀ d, (P.state.deliveries d).acks + (P.state.deliveries d).nacks ≤ 1 := by
  have hs : Sound inbox P.state := sound_of_reachable h
  have hstored : ∀ d, Decodes inbox d → 0 < (P.state.deliveries d).acks →
      ∃ n p, (P.state.deliveries d).word = some ⟨true, .publishWaiter n⟩ ∧
        (P.state.waiting n).succeeded = true ∧ P.state.publishes[n]? = some p ∧
        p.result.routing.transportCorrelationID = (inbox d).2.id := by
    intro d hdec hack
    obtain ⟨-, t, hword⟩ := (hs.settled d).told hdec hack
    have htraced := hs.traced (.callback d) _ hword
    obtain ⟨n, rfl⟩ : ∃ n, t = .publishWaiter n := htraced.of_published rfl
    obtain ⟨hwait, p, hp, hid⟩ := htraced.of_waiter n rfl
    exact ⟨n, p, hword, by rw [hwait]; rfl, hp, hid⟩
  refine ⟨fun d hdec hack => ?_, fun d e n b b' hd he => ?_, fun d hdec hdecl => ?_,
    fun d w hdec hword hsender => ?_, fun d => ?_⟩
  · obtain ⟨n, p, hword, hwait, hp, hid⟩ := hstored d hdec hack
    exact ⟨n, p, hword, hp, hs.heard n hwait, hid⟩
  · have heq := hs.unique (.callback d) (.callback e) n b b' hd he
    injection heq
  · by_contra hack
    have htold := ((hs.settled d).told hdec (Nat.pos_of_ne_zero hack)).1
    rw [hdecl] at htold
    cases htold
  · by_contra hack
    obtain ⟨n, p, hword', hwait, -, -⟩ := hstored d hdec (Nat.pos_of_ne_zero hack)
    obtain rfl := some.inj (hword.symm.trans hword')
    rcases hsender with hretry | hnone | ⟨m, hm, hfail⟩
    · cases hretry
    · cases hnone
    · obtain rfl : n = m := by injection hm
      rw [hwait] at hfail
      cases hfail
  · have honce := (hs.settled d).once
    omega

/-- Three deliveries of one message. -/
def redelivered : ℕ → Subscription × Message := fun _ =>
  (⟨"requests", "results", [], fun data => some ⟨data, .empty, ""⟩⟩, ⟨"m", "r", [], none⟩)

/-- The gate returns this verdict, the first element is received, and publishes succeed. -/
def Choice.given (v : FlowControl.Verdict) : Choice :=
  ⟨⟨.ok v, ⟨"r", .empty, .empty⟩, []⟩, 0, true, false⟩

/-- The second delivery has replaced the channel of the first one when the result of the first is
published, so it is the second one that is acknowledged.  The third one is refused. -/
def redeliveredRun : List (Label Thread Choice Operation Event) :=
  let c := Choice.given .proceed
  [.start (.callback 0) .receive, .act (.callback 0) c, .act (.callback 0) c, .act (.callback 0) c,
    .start (.callback 1) .receive, .act (.callback 1) c, .act (.callback 1) c, .act (.callback 1) c,
    .env (.finish 0 (.result "r" "done" "" "")),
    .start .resultWorker (.work 1), .act .resultWorker c, .act .resultWorker c,
    .env (.accept 0), .start (.publishWaiter 0) (.await "m"), .act (.publishWaiter 0) c,
    .act (.publishWaiter 0) c, .act (.publishWaiter 0) c,
    .act (.callback 1) c, .act (.callback 1) c,
    .start (.callback 2) .receive, .act (.callback 2) c, .act (.callback 2) (.given .refuse),
    .act (.callback 2) c, .env .shutdown, .env (.delayedNack 2)]

theorem acked_only_after_publish_redelivered :
    let P := (flow redelivered "").run (idle .init) redeliveredRun
    (P.state.deliveries 1).acks = 1 ∧ (P.state.deliveries 0).acks = 0 ∧
      (P.state.deliveries 2).declined = true ∧ (P.state.deliveries 2).acks = 0 ∧
      (P.state.deliveries 2).nacks = 1 ∧ 0 ∈ P.state.accepted := by
  intro P
  have hP : (flow redelivered "").Reachable .free .init P := reachable_run _ _ _
  have hack : (P.state.deliveries 1).acks = 1 := by decide +kernel
  have hzero : (P.state.deliveries 0).acks = 0 := by decide +kernel
  have hrefused : (P.state.deliveries 2).declined = true := by decide +kernel
  have hnack : (P.state.deliveries 2).nacks = 1 := by decide +kernel
  have hword : (P.state.deliveries 1).word = some ⟨true, .publishWaiter 0⟩ := by decide +kernel
  clear_value P
  obtain ⟨hstored, -, hdeclined, -, -⟩ := acked_only_after_publish redelivered "" hP
  obtain ⟨n, p, hword', -, hacc, -⟩ := hstored 1 rfl (by rw [hack]; exact Nat.one_pos)
  obtain rfl : 0 = n := by
    injection some.inj (hword.symm.trans hword') with _ hn
    injection hn
  exact ⟨hack, hzero, hrefused, hdeclined 2 rfl hrefused, hnack, hacc⟩

end LlmdAsync.PubSub
