import LlmdAsync.SqlFlow.QuotaRegistry

/-!
# The books of the quota store

For every holder, `known` is the weight of the entries of the ledger that name it and the number of
its queued releases; and as long as its lease is live, the database counts at least the slots of the
ledger and the releases that have not been sent.  A holder that is to be deleted is named by
nothing.

All this is proved action by action: `Balanced` compares what an action does to a count with what it
does to the ledger.
-/

namespace LlmdAsync.SqlFlow.QuotaStore

open SqlQueue Custody List Function Multiset Entry Action AdmitReply Registry Settled Option Prod

variable {ttl : ℤ} {t : Thread} {c : Choice} {x : Audit} {s s' : State} {a : Action} {r : a.Reply}

attribute [local simp] Action.needs Action.collects Action.yields Action.deposits

/-! ### The state after an action -/

/-- An action changes one part of the state, or is one on both. -/
lemma effect_cases (he : effect ttl t a c s = some (r, s')) :
    (a.part = .registry ∧ ∃ s₁, s.registry.step ttl a c = some (r, s₁) ∧
      s' = { s with registry := s₁ }) ∨
    (a.part = .life ∧ ∃ s₁, s.life.step t a c = some (r, s₁) ∧ s' = { s with life := s₁ }) ∨
    (a.part = .slots ∧ ∃ s₁, s.slots.step a c = some (r, s₁) ∧ s' = { s with slots := s₁ }) ∨
    (a.part = .both ∧ s.step a = some (r, s')) := by
  unfold effect at he
  cases hpart : a.part with
  | registry =>
    rw [hpart] at he
    obtain ⟨⟨r₁, s₁⟩, hs₁, heq⟩ := map_eq_some_iff.mp he
    obtain ⟨rfl, rfl⟩ := mk.inj heq
    exact .inl ⟨rfl, s₁, hs₁, rfl⟩
  | life =>
    rw [hpart] at he
    obtain ⟨⟨r₁, s₁⟩, hs₁, heq⟩ := map_eq_some_iff.mp he
    obtain ⟨rfl, rfl⟩ := mk.inj heq
    exact .inr (.inl ⟨rfl, s₁, hs₁, rfl⟩)
  | slots =>
    rw [hpart] at he
    obtain ⟨⟨r₁, s₁⟩, hs₁, heq⟩ := map_eq_some_iff.mp he
    obtain ⟨rfl, rfl⟩ := mk.inj heq
    exact .inr (.inr (.inl ⟨rfl, s₁, hs₁, rfl⟩))
  | both =>
    rw [hpart] at he
    exact .inr (.inr (.inr ⟨rfl, he⟩))

/-! ### The ledger after an action -/

/-- The site of an action is nobody's hand. -/
lemma site_ne_hand (s : State) (t u : Thread) (a : Action) : Place.hand u ≠ site s t a := by
  cases a with
  | begin => cases t <;> exact Place.noConfusion
  | _ => exact Place.noConfusion

namespace Audit

/-- The hand of the thread after an action. -/
lemma held_enter_hand (hn : a.needs ≤ x.ledger.held (.hand t)) :
    (x.enter t a r).held (.hand t) = x.ledger.held (.hand t) - a.needs + a.yields r := by
  rw [enter, held_exchange_of_ne (site_ne_hand x.store t t a), held_exchange_self hn]

/-- The hands of other threads stay as they are. -/
lemma held_enter_other {u : Thread} (hu : u ≠ t) :
    (x.enter t a r).held (.hand u) = x.ledger.held (.hand u) := by
  rw [enter, held_exchange_of_ne (site_ne_hand x.store t u a),
    held_exchange_of_ne fun h => hu (Place.hand.inj h)]

/-- The site of an action after it. -/
lemma held_enter_site (hc : a.collects r ≤ x.ledger.held (site x.store t a)) :
    (x.enter t a r).held (site x.store t a) =
      x.ledger.held (site x.store t a) - a.collects r + a.deposits x.store r := by
  have hsame : (x.ledger.exchange (.hand t) a.needs (a.yields r)).held (site x.store t a) =
      x.ledger.held (site x.store t a) := held_exchange_of_ne (site_ne_hand x.store t t a).symm
  rw [enter, held_exchange_self (hsame ▸ hc), hsame]

/-- All other places stay as they are. -/
lemma held_enter_elsewhere {q : Place} (hq : q ≠ .hand t) (hq' : q ≠ site x.store t a) :
    (x.enter t a r).held q = x.ledger.held q := by
  rw [enter, held_exchange_of_ne hq', held_exchange_of_ne hq]

/-- The weight of the ledger after an action. -/
lemma weigh_enter (hn : a.needs ≤ x.ledger.held (.hand t))
    (hc : a.collects r ≤ x.ledger.held (site x.store t a)) (f : Entry → ℕ) :
    (x.enter t a r).weigh f + load f a.needs + load f (a.collects r) =
      x.ledger.weigh f + load f (a.yields r) + load f (a.deposits x.store r) := by
  have hsame : (x.ledger.exchange (.hand t) a.needs (a.yields r)).held (site x.store t a) =
      x.ledger.held (site x.store t a) := held_exchange_of_ne (site_ne_hand x.store t t a).symm
  have hhand := weigh_exchange hn (a.yields r) f
  have hsite := weigh_exchange (hsame ▸ hc) (a.deposits x.store r) f
  rw [enter]
  omega

/-- The entries after an action are old, yielded or deposited. -/
lemma mem_enter {e : Place × Entry} (he : e ∈ x.enter t a r) :
    e ∈ x.ledger ∨ e.2 ∈ a.yields r ∨ e.2 ∈ a.deposits x.store r := by
  rcases mem_exchange he with he | ⟨-, he⟩
  · rcases mem_exchange he with he | ⟨-, he⟩
    · exact .inl he
    · exact .inr (.inl he)
  · exact .inr (.inr he)

end Audit

/-! ### Weights -/

namespace Entry

/-- How much of `known` the entry stands for. -/
def counted (h : String) : Entry → ℕ
  | .acquiring h' => if h' = h then 1 else 0
  | .won h' _ _ => if h' = h then 1 else 0
  | .slot _ h' _ _ => if h' = h then 1 else 0
  | .sending h' counts => if h' = h then total counts else 0
  | .sent h' counts => if h' = h then total counts else 0
  | _ => 0

/-- How many slots of a key the database must count for the entry. -/
def backed (h key : String) : Entry → ℕ
  | .won h' key' ws => if h' = h ∧ key' = key then ws.length else 0
  | .slot _ h' key' _ => if h' = h ∧ key' = key then 1 else 0
  | .sending h' counts => if h' = h then countAt counts key else 0
  | _ => 0

def named (n : String) : Entry → ℕ
  | .naming n' => if n' = n then 1 else 0
  | _ => 0

def runs : Entry → ℕ
  | .running => 1
  | _ => 0

def Names (h : String) : Entry → Prop
  | .acquiring h' => h' = h
  | .won h' _ _ => h' = h
  | .slot _ h' _ _ => h' = h
  | .sending h' _ => h' = h
  | .sent h' _ => h' = h
  | _ => False

def empty : Entry → ℕ
  | .sending _ counts => if total counts = 0 then 1 else 0
  | .sent _ counts => if total counts = 0 then 1 else 0
  | _ => 0

/-- An entry that counts for nothing does not name the holder. -/
lemma not_names_of_counted {h : String} {e : Entry} (hempty : e.empty = 0)
    (he : e.counted h = 0) : ¬ e.Names h := by
  cases e <;> simp_all [counted, Names, empty]

/-- The count of a key is part of the total. -/
lemma countAt_le_total (counts : List (String × ℕ)) (key : String) :
    countAt counts key ≤ total counts := by
  refine sum_le_sum fun c _ => ?_
  split
  · exact le_refl _
  · exact Nat.zero_le _

/-- What does not count for the holder needs no slot in the database. -/
lemma backed_of_counted {h key : String} {e : Entry} (he : e.counted h = 0) :
    e.backed h key = 0 := by
  cases e with
  | won h' key' ws | slot phase h' key' w => simp_all [counted, backed]
  | sending h' counts =>
    simp only [counted, backed] at he ⊢
    split
    next heq =>
      rw [if_pos heq] at he
      exact Nat.le_zero.mp (he ▸ countAt_le_total counts key)
    · rfl
  | _ => rfl

end Entry

/-- The weight of a list of entries of one kind. -/
lemma load_each (f : Entry → ℕ) (entry : ℕ → Entry) (ws : List ℕ) :
    load f (each entry ws) = (ws.map fun w => f (entry w)).sum := by
  simp [each, comp_def]

/-- The weight of entries that all weigh the same. -/
lemma load_each_const {f : Entry → ℕ} {entry : ℕ → Entry} {n : ℕ} (h : ∀ w, f (entry w) = n)
    (ws : List ℕ) : load f (each entry ws) = ws.length * n := by
  simp [load_each, h]

/-- The weight of entries that weigh nothing. -/
lemma load_each_zero {f : Entry → ℕ} {entry : ℕ → Entry} (h : ∀ w, f (entry w) = 0)
    (ws : List ℕ) : load f (each entry ws) = 0 := by
  simp [load_each, h]

/-- Queued releases, counted over the rows that `takePending` makes of them. -/
lemma countP_listed {P : String × String → Prop} [DecidablePred P]
    (f : String × List (String × ℕ) → ℕ)
    (hf : ∀ r, f r = (r.2.map fun c => if P (r.1, c.1) then c.2 else 0).sum)
    (rows : List (String × List (String × ℕ))) : (listed rows).countP P = (rows.map f).sum := by
  rw [listed, coe_countP, countP_flatMap]
  refine congrArg List.sum (List.map_congr_left fun r _ => ?_)
  rw [comp_apply, countP_flatMap, hf]
  simp [comp_def, countP_replicate]

/-! ### Balances -/

/-- Mild actions move no entries. -/
lemma mild_needs (ha : a.mild = true) : a.needs = 0 ∧ a.yields r = 0 := by
  cases a <;> first | exact ⟨rfl, rfl⟩ | exact nomatch ha

/-- Upkeep moves no entries. -/
lemma upkeep_needs {picks : QuotaDb.ReapPicks} {step : QuotaStep}
    (ha : a.upkeep ttl picks = some step) : a.needs = 0 ∧ a.yields r = 0 := by
  cases a <;> first | exact ⟨rfl, rfl⟩ | exact nomatch ha

namespace Registry

variable {s s' : Registry}

/-- `known` changes as the ledger and the queue do. -/
lemma Did.known (hd : Did ttl s a r s') (hsound : a.sound)
    (hcurrent : ∀ h, s.current = some h → (s.heap h).isSome = true)
    (hnew : ∀ name started, a = .insertHolder name started → s.heap name = none) (h : String) :
    s'.known h + s.queued h + load (counted h) a.needs =
      s.known h + s'.queued h + load (counted h) (a.yields r) := by
  cases hd with
  | mild ha hm =>
    obtain ⟨hneeds, hyields⟩ := mild_needs (r := r) ha
    rw [hneeds, hyields, hm.known, Registry.queued, Registry.queued, hm.pending]
  | upkeep picks ha hran =>
    obtain ⟨hneeds, hyields⟩ := upkeep_needs (r := r) ha
    rw [hneeds, hyields, (hran.known h).1, (hran.known h).2]
  | noCurrent | noName e | flushed | name name hfresh => rfl
  | current h₀ hh₀ =>
    obtain ⟨y, hy⟩ := isSome_iff_exists.mp (hcurrent h₀ hh₀)
    rw [known_modify s h₀ hy (n := 1) rfl]
    change _ + (s.queued h : ℤ) + _ = _ + (s.queued h : ℤ) + _
    simp only [needs, yields, counted, load_singleton,
      insert_eq_cons, load_cons, Nat.cast_add, Nat.cast_ite, Nat.cast_one, Nat.cast_zero]
    omega
  | inserted name started =>
    have hnone := hnew name started rfl
    change _ + (s.queued h : ℤ) + _ = _ + (s.queued h : ℤ) + _
    simp only [needs, yields, counted, load_singleton, Registry.known,
      Multiset.insert_eq_cons, load_cons]
    rcases eq_or_ne h name with rfl | hne
    · simp [hnone]
      omega
    · simp [hne, hne.symm]
  | settled h₀ n why y hy drop hdrop =>
    rw [known_modify s h₀ hy (n := -n) rfl]
    change _ + (s.queued h : ℤ) + _ = _ + (s.queued h : ℤ) + _
    have hcost : (load (counted h) {why.entry h₀} : ℤ) =
        load (counted h) (why.rest h₀) + if h₀ = h then why.cost else 0 := by
      cases why with
      | failed | sent counts => simp [entry, rest, cost, counted]
      | granted key ws =>
        rw [rest, load_each_const (n := if h₀ = h then 1 else 0) fun _ => rfl]
        simp only [entry, cost, counted, load_singleton]
        split <;> simp
    obtain rfl : n = why.cost := hsound
    simp only [needs, yields] at hcost ⊢
    rw [hcost]
    split <;> omega
  | registered name answer hran =>
    rw [(hran.known h).1, (hran.known h).2]
    cases answer <;> rfl
  | acquired h₀ key batch limit granted hg =>
    change s.known h + (s.queued h : ℤ) + _ = s.known h + (s.queued h : ℤ) + _
    have hduty : load (counted h) (each (.duty key) batch) = 0 := by
      exact load_each_zero (fun _ => rfl) batch
    have hrefused : load (counted h) (each (.refused key) (batch.drop granted.val)) = 0 := by
      exact load_each_zero (fun _ => rfl) _
    simp [counted, hduty, hrefused]
  | notAcquired h₀ key batch limit e hran | sent h₀ counts answer hran =>
    rw [(hran.known h).1, (hran.known h).2]
    rfl
  | queued h₀ key w by_ start =>
    simp only [Registry.queued, needs, yields, load_singleton, load_zero,
      counted, Multiset.countP_cons, Registry.known]
    split <;> simp
    omega
  | taken rows hlists =>
    change s.known h + (s.queued h : ℤ) + _ = s.known h + _ + _
    have hload : load (counted h) (yields .takePending rows) = s.queued h := by
      rw [Registry.queued, ← hlists.1, countP_listed fun r => if r.1 = h then total r.2 else 0]
      · simp [counted, comp_def]
      · intro r
        by_cases hr : r.1 = h <;> simp [hr, total]
    rw [hload]
    simp [Registry.queued]

/-- What the database counts changes at least as the ledger and the queue do. -/
lemma Did.backed (hd : Did ttl s a r s') (hslots : s.world.db.SlotsSound) {h : String}
    (ha : a ≠ .registerQuotaHolder h) (hlive : s'.live h = true) (key : String) :
    s.live h = true ∧
      s.world.db.usedBy key h + s'.queuedAt h key + load (backed h key) (a.yields r) ≤
        s'.world.db.usedBy key h + s.queuedAt h key + load (backed h key) a.needs := by
  cases hd with
  | mild ha hm =>
    obtain ⟨hneeds, hyields⟩ := mild_needs (r := r) ha
    rw [live, hm.world] at hlive
    rw [hneeds, hyields, hm.world, queuedAt, queuedAt, hm.pending]
    exact ⟨hlive, le_refl _⟩
  | upkeep picks ha hran =>
    rename_i step
    obtain ⟨hneeds, hyields⟩ := upkeep_needs (r := r) ha
    have hstep : (∀ ttl, step ≠ .register h ttl) ∧ step.releases key h = 0 := by
      cases a with
      | renewQuotaHolder h | deleteQuotaHolder h | reapQuotaHolders | reapQuota =>
        cases ha
        exact ⟨fun _ => QuotaStep.noConfusion, rfl⟩
      | _ => exact nomatch ha
    obtain ⟨hlive', hq, hle⟩ := hran.usedBy hslots hstep.1 hlive key
    rw [hstep.2] at hle
    rw [hneeds, hyields, hq]
    exact ⟨hlive', by simpa using hle⟩
  | noCurrent | noName e | flushed | name name hfresh | current h₀ hh₀ | inserted name started =>
    exact ⟨hlive, le_refl _⟩
  | settled h₀ n why y hy drop hdrop =>
    refine ⟨hlive, ?_⟩
    change _ + (s.queuedAt h key : ℤ) + _ ≤ _ + (s.queuedAt h key : ℤ) + _
    have hsame : load (backed h key) (why.rest h₀) =
        load (backed h key) {why.entry h₀} := by
      cases why with
      | failed | sent counts => rfl
      | granted key' ws =>
        rw [rest, load_each_const (n := if h₀ = h ∧ key' = key then 1 else 0) fun _ => rfl]
        simp [entry, backed]
    simp only [needs, yields]
    rw [hsame]
    exact le_refl _
  | registered name answer hran =>
    have hne : ∀ ttl', QuotaStep.register name (milliseconds ttl) ≠ .register h ttl' := by
      intro ttl' heq
      exact ha (congrArg registerQuotaHolder (QuotaStep.register.inj heq).1)
    obtain ⟨hlive', hq, hle⟩ := hran.usedBy hslots hne hlive key
    rw [hq]
    refine ⟨hlive', ?_⟩
    cases answer <;> simpa [backed, QuotaStep.releases] using hle
  | acquired h₀ key₀ batch limit granted hg =>
    have hran : s.Ran (.acquire h₀ key₀ batch.length limit) _ := .inr rfl
    obtain ⟨hlive', hq, -⟩ := hran.usedBy hslots (fun _ => QuotaStep.noConfusion) hlive key
    refine ⟨hlive', ?_⟩
    change _ + (s.queuedAt h key : ℤ) + _ ≤ _ + (s.queuedAt h key : ℤ) + _
    have hused := s.world.db.usedBy_quotaAcquire s.world.now key₀ h₀ batch.length limit key h
    rw [hg] at hused
    have hduty : load (backed h key) (each (.duty key₀) batch) = 0 :=
      load_each_zero (fun _ => rfl) batch
    have hrefused : load (backed h key) (each (.refused key₀) (batch.drop granted.val)) = 0 :=
      load_each_zero (fun _ => rfl) _
    have hlen : (batch.take granted.val).length = granted.val :=
      length_take_of_le (Nat.lt_succ_iff.mp granted.isLt)
    simp only [needs, yields, load_cons, hduty, hrefused, backed, hlen, QuotaWorld.next, hused]
    split
    · simp
      omega
    · simp
  | notAcquired h₀ key₀ batch limit e hran =>
    obtain ⟨hlive', hq, hle⟩ := hran.usedBy hslots (fun _ => QuotaStep.noConfusion) hlive key
    rw [hq]
    exact ⟨hlive', by simpa [QuotaStep.releases] using hle⟩
  | sent h₀ counts answer hran =>
    obtain ⟨hlive', hq, hle⟩ := hran.usedBy hslots (fun _ => QuotaStep.noConfusion) hlive key
    rw [hq]
    refine ⟨hlive', ?_⟩
    simp only [needs, yields, load_singleton, backed, QuotaStep.releases] at hle ⊢
    omega
  | queued h₀ key₀ w by_ start =>
    refine ⟨hlive, ?_⟩
    simp only [queuedAt, needs, yields, load_singleton, load_zero, backed, Multiset.countP_cons]
    split <;> simp
    omega
  | taken rows hlists =>
    refine ⟨hlive, ?_⟩
    have hload : load (backed h key) (yields .takePending rows) =
        s.queuedAt h key := by
      rw [queuedAt, ← hlists.1, countP_listed fun r => if r.1 = h then countAt r.2 key else 0]
      · simp [backed, comp_def]
      · intro r
        by_cases hr : r.1 = h <;> simp [hr, countAt]
    rw [hload]
    simp [queuedAt]

/-- Names are drawn once. -/
lemma Did.names (hd : Did ttl s a r s') (n : String) :
    load (named n) (a.yields r) + (if (s'.heap n).isSome then 1 else 0) +
        (if n ∈ s.names then 1 else 0) ≤
      load (named n) a.needs + (if (s.heap n).isSome then 1 else 0) +
        if n ∈ s'.names then 1 else 0 := by
  cases hd with
  | mild ha hm => 
    obtain ⟨hneeds, hyields⟩ := mild_needs (r := r) ha
    have hsome : (s'.heap n).isSome = (s.heap n).isSome := by
      rcases hm.heap n with ⟨hn, hn'⟩ | ⟨y, y', hy, hy', -⟩
      · rw [hn, hn']
      · rw [hy, hy']
        rfl
    rw [hneeds, hyields, hsome, hm.names]
  | upkeep picks ha hran =>
    obtain ⟨hneeds, hyields⟩ := upkeep_needs (r := r) ha
    rcases hran with rfl | rfl <;> rw [hneeds, hyields]
  | noCurrent | noName e | flushed | queued h key w by_ start => exact le_refl _
  | current h hh =>
    have hsome : ((s.modify h fun y => { y with known := y.known + 1 }).heap n).isSome =
        (s.heap n).isSome := isSome_modify s h _ n
    rw [hsome]
    exact le_refl _
  | settled h m why y hy drop hdrop =>
    have hsome : ((s.modify h fun y =>
        { y with known := y.known - m, deleting := y.deleting || drop }).heap n).isSome =
        (s.heap n).isSome := isSome_modify s h _ n
    have hrest : load (named n) (why.rest h) = 0 := by
      cases why with
      | granted key ws => exact load_each_zero (fun _ => rfl) ws
      | _ => rfl
    rw [hsome, yields, hrest]
    change _ ≤ _ + _ + if n ∈ s.names then 1 else 0
    omega
  | name name hfresh =>
    simp only [needs, yields, load_singleton, load_zero, named, List.mem_cons]
    rcases eq_or_ne n name with rfl | hne
    · simp [hfresh]
      omega
    · simp [hne, hne.symm]
  | inserted name started =>
    simp only [needs, yields, load_singleton, insert_eq_cons, load_cons, named]
    rcases eq_or_ne n name with rfl | hne
    · simp
    · simp [hne, hne.symm]
  | registered name answer hran =>
    have hle : load (named n) ((registerQuotaHolder name).yields answer) ≤
        load (named n) (registerQuotaHolder name).needs := by
      cases answer with
      | error e => exact Nat.zero_le _
      | ok _ => exact le_refl _
    rcases hran with rfl | rfl <;> exact Nat.add_le_add_right (Nat.add_le_add_right hle _) _
  | sent h counts answer hran | notAcquired h key batch limit e hran =>
    rcases hran with rfl | rfl <;> exact le_refl _
  | acquired h key batch limit granted hg =>
    have hrefused : load (named n) (each (.refused key) (batch.drop granted.val)) = 0 :=
      load_each_zero (fun _ => rfl) _
    simp only [needs, yields, load_cons, hrefused, named]
    omega
  | taken rows hlists =>
    have hrows : load (named n) (yields .takePending rows) = 0 := by
      simp [named, comp_def]
    rw [hrows]
    exact le_refl _
end Registry

/-- A release with entries is not empty. -/
lemma total_pos {counts : List (String × ℕ)} (hne : counts ≠ []) (hpos : ∀ c ∈ counts, 0 < c.2) :
    0 < total counts := by
  cases counts with
  | nil => exact absurd rfl hne
  | cons c counts =>
    have := hpos c List.mem_cons_self
    simp only [total, List.map_cons, List.sum_cons]
    omega

/-- No action makes an empty release. -/
lemma Registry.Did.empty {s s' : Registry} (hd : Did ttl s a r s') :
    load empty (a.yields r) ≤ load empty a.needs := by
  cases hd with
  | mild ha => rw [(mild_needs (r := r) ha).2]; exact Nat.zero_le _
  | upkeep picks ha => rw [(upkeep_needs (r := r) ha).2]; exact Nat.zero_le _
  | settled h n why =>
    cases why with
    | granted key ws =>
      rw [yields, rest, load_each_zero fun _ => rfl]
      exact Nat.zero_le _
    | _ => exact Nat.zero_le _
  | registered name answer => cases answer <;> exact le_refl _
  | acquired h key batch limit granted =>
    rw [yields, load_cons, load_each_zero fun _ => rfl]
    exact Nat.zero_le _
  | taken rows hlists =>
    have hzero : load empty (yields .takePending rows) = 0 := by
      refine load_eq_zero.mpr fun e he => ?_
      simp only [yields, mem_coe, List.mem_map] at he
      obtain ⟨row, hrow, rfl⟩ := he
      have hpos := total_pos (hlists.2.2 row hrow).2.1 (hlists.2.2 row hrow).2.2
      simp [empty, hpos.ne']
    rw [hzero]
    exact Nat.zero_le _
  | _ => exact le_refl _

/-! ### Weights that actions preserve -/

/-- A weight of slots that does not look at their phase. -/
structure Even (f : Entry → ℕ) : Prop where
  slot : ∀ p p' h key w, f (.slot p h key w) = f (.slot p' h key w)
  running : f .running = 0
  waiting : ∀ key w, f (.waiting key w) = 0
  duty : ∀ key w, f (.duty key w) = 0
  refused : ∀ key w, f (.refused key w) = 0
  replying : ∀ key w, f (.replying key w) = 0

namespace Even

variable {f : Entry → ℕ}

/-- The weight `counted` is even. -/
lemma counted (h : String) : Even (counted h) :=
  ⟨fun _ _ _ _ _ => rfl, rfl, fun _ _ => rfl, fun _ _ => rfl, fun _ _ => rfl, fun _ _ => rfl⟩

/-- The weight `backed` is even. -/
lemma backed (h key : String) : Even (backed h key) :=
  ⟨fun _ _ _ _ _ => rfl, rfl, fun _ _ => rfl, fun _ _ => rfl, fun _ _ => rfl, fun _ _ => rfl⟩

/-- The weight `named` is even. -/
lemma named (n : String) : Even (named n) :=
  ⟨fun _ _ _ _ _ => rfl, rfl, fun _ _ => rfl, fun _ _ => rfl, fun _ _ => rfl, fun _ _ => rfl⟩

/-- The weight `empty` is even. -/
lemma empty : Even empty :=
  ⟨fun _ _ _ _ _ => rfl, rfl, fun _ _ => rfl, fun _ _ => rfl, fun _ _ => rfl, fun _ _ => rfl⟩

/-- An even weight of the slot of a reply is the same in all phases. -/
lemma load_slot (hf : Even f) (r : AdmitReply) (key : String) (w : ℕ) (p p' : Phase) :
    load f (r.slot p key w) = load f (r.slot p' key w) := by
  obtain ⟨ok, holder, err⟩ := r
  cases ok <;> cases holder <;> simp [AdmitReply.slot, hf.slot p p']

/-- The claim of a reply weighs as much as its slot. -/
lemma load_claim (hf : Even f) (r : AdmitReply) (key : String) (w : ℕ) :
    load f (r.claim key w) = load f (r.slot .held key w) := by
  obtain ⟨ok, holder, err⟩ := r
  cases ok <;> cases holder <;> cases err <;>
    simp [AdmitReply.slot, AdmitReply.claim, hf.slot .ready .held, hf.refused, hf.duty]

/-- The right of a reply weighs as much as its slot. -/
lemma load_right (hf : Even f) (r : AdmitReply) (key : String) (w : ℕ) :
    load f (r.right key w) = load f (r.slot .held key w) := by
  obtain ⟨ok, holder, err⟩ := r
  cases ok <;> cases holder <;>
    simp [AdmitReply.slot, AdmitReply.right, hf.slot .giving .held, hf.replying]

/-- Actions outside the registry keep such weights. -/
lemma balanced (hf : Even f) (s : State) (ha : a.part ≠ .registry) :
    load f a.needs + load f (a.collects r) = load f (a.yields r) + load f (a.deposits s r) := by
  cases a with
  | enqueue k =>
    cases r with
    | none => rfl
    | some w =>
      simp only [needs, collects, yields, deposits, load_zero, load_singleton, hf.waiting]
      split <;> simp [hf.running]
  | select key w =>
    cases r with
    | none => rfl
    | some r => simp [hf.waiting]
  | abandon key w =>
    cases r <;> simp [hf.waiting]
  | receive key w =>
    simp [hf.waiting]
  | takeBatch k =>
    simp [load_each_zero (hf.duty _)]
  | answer key w reply =>
    cases r with
    | true =>
      simp [hf.load_claim, hf.load_right]
    | false =>
      simp [hf.load_claim, hf.load_slot reply key w .giveBack .held]
  | send key w reply =>
    simp [hf.load_right]
  | spawn job =>
    cases r <;> simp [hf.running]
  | begin | exit =>
    simp [hf.running]
  | tick | close | cancel | wait => rfl
  | _ => exact absurd rfl ha

end Even

/-- Actions of the registry have no site. -/
lemma registry_site (ha : a.part = .registry) : a.collects r = 0 ∧ a.deposits s r = 0 := by
  cases a <;> first | exact ⟨rfl, rfl⟩ | exact nomatch ha

/-- Actions on both parts leave the registry alone. -/
lemma State.step_registry (he : s.step a = some (r, s')) : s'.registry = s.registry := by
  cases a with
  | enqueue k =>
    simp only [step] at he
    split at he
    · cases he
      rfl
    · split at he <;> cases he <;> rfl
  | _ => exact nomatch he

/-! ### Holders -/

/-- What is known of holders. -/
structure Counted (x : Audit) : Prop where
  kept : x.store.registry.Kept
  /-- `known` is what it counts. -/
  known : ∀ h, x.store.registry.known h =
    x.ledger.weigh (Entry.counted h) + x.store.registry.queued h
  /-- The database counts every slot whose release has not been sent. -/
  backed : ∀ h key, x.store.registry.live h = true →
    (x.ledger.weigh (Entry.backed h key) + x.store.registry.queuedAt h key : ℤ) ≤
      x.store.registry.world.db.usedBy key h
  /-- A name is drawn once. -/
  names : ∀ n, x.ledger.weigh (Entry.named n) +
    (if (x.store.registry.heap n).isSome then 1 else 0) ≤
      if n ∈ x.store.registry.names then 1 else 0
  /-- Releases that are sent are not empty. -/
  sized : x.ledger.weigh Entry.empty = 0

namespace Counted

variable {past : History}

/-- If `known` is zero, then nothing counts for the holder. -/
lemma not_named (hx : Counted x) {h : String} (h0 : x.store.registry.known h = 0) :
    x.ledger.weigh (counted h) = 0 ∧ x.store.registry.queued h = 0 := by
  have hknown := hx.known h
  omega

/-- A name that is being used for a new holder has none yet. -/
lemma fresh (hx : Counted x) {n : String} (hn : {.naming n} ≤ x.ledger.held (.hand t)) :
    x.store.registry.heap n = none := by
  have hweigh := load_le_weigh hn (named n)
  have hnames := hx.names n
  simp only [load_singleton, named, if_true] at hweigh
  by_cases hsome : (x.store.registry.heap n).isSome = true
  · rw [if_pos hsome] at hnames
    split at hnames <;> omega
  · simpa using hsome

/-- A holder is inserted under a name that has none yet. -/
lemma fresh_insert (hx : Counted x) (hn : a.needs ≤ x.ledger.held (.hand t)) :
    ∀ name started, a = .insertHolder name started → x.store.registry.heap name = none := by
  rintro name started rfl
  exact hx.fresh ((le_cons_self _ _).trans hn)

/-- Nothing is settled for a holder that counts nothing. -/
lemma settle_zero (hx : Counted x) (hn : a.needs ≤ x.ledger.held (.hand t)) (hsound : a.sound) :
    ∀ h n why, a = .settle h n why → x.store.registry.known h = 0 → n = 0 := by
  rintro h n why rfl h0
  have hload := load_le_weigh hn (counted h)
  rw [(hx.not_named h0).1] at hload
  obtain rfl : n = why.cost := hsound
  cases why <;> simp_all [needs, entry, cost, counted]

/-- Every action keeps what is known of holders. -/
lemma step (hx : Counted x) (hn : a.needs ≤ x.ledger.held (.hand t))
    (hc : a.collects r ≤ x.ledger.held (site x.store t a)) (hsound : a.sound)
    (he : effect ttl t a c x.store = some (r, s')) : Counted ⟨s', x.enter t a r, past⟩ := by
  have hweigh := fun f => x.weigh_enter (r := r) hn hc f
  by_cases hpart : a.part = .registry
  · rcases effect_cases he with ⟨-, s₁, hs₁, rfl⟩ | ⟨hpart', -⟩ | ⟨hpart', -⟩ | ⟨hpart', -⟩
    · have hd := step_did hs₁
      obtain ⟨hcollects, hdeposits⟩ := registry_site (r := r) (s := x.store) hpart
      have hbalance : ∀ f, (x.enter t a r).weigh f + load f a.needs =
          x.ledger.weigh f + load f (a.yields r) := by
        intro f
        have hf := hweigh f
        rw [hcollects, hdeposits] at hf
        simpa using hf
      have hnew := hx.fresh_insert hn
      have hsettle := hx.settle_zero hn hsound
      refine ⟨hd.kept hx.kept hsettle, fun h => ?_, fun h key hlive => ?_, fun n => ?_, ?_⟩
      · have hstep := hd.known hsound hx.kept.current_isSome hnew h
        have hf := hbalance (Entry.counted h)
        have hold := hx.known h
        dsimp only
        omega
      · have hf := hbalance (Entry.backed h key)
        dsimp only at hlive ⊢
        by_cases hreg : a = .registerQuotaHolder h
        · subst hreg
          have h0 : x.store.registry.known h = 0 := by
            rw [Registry.known, hx.fresh hn]
            rfl
          obtain ⟨hcounted, hqueued⟩ := hx.not_named h0
          have hbacked : x.ledger.weigh (Entry.backed h key) = 0 :=
            weigh_eq_zero_of_imp (fun _ => Entry.backed_of_counted) hcounted
          have hpending : s₁.pending = x.store.registry.pending := by
            cases hd with
            | mild ha | upkeep picks ha => exact nomatch ha
            | registered name answer hran => rcases hran with rfl | rfl <;> rfl
          have hqueuedAt : s₁.queuedAt h key = 0 := by
            rw [queued, Multiset.countP_eq_zero] at hqueued
            rw [queuedAt, hpending, Multiset.countP_eq_zero]
            exact fun p hp heq => hqueued p hp heq.1
          have hnonneg := (hd.kept hx.kept hsettle).slots.usedBy_nonneg key h
          have hneeds : load (Entry.backed h key) (registerQuotaHolder h).needs = 0 := rfl
          have hyields :
              load (Entry.backed h key) ((registerQuotaHolder h).yields r) = 0 := by
            cases r <;> rfl
          omega
        · obtain ⟨hlive₀, hle⟩ := hd.backed hx.kept.slots hreg hlive key
          have hold := hx.backed h key hlive₀
          omega
      · have hstep := hd.names n
        have hf := hbalance (Entry.named n)
        have hold := hx.names n
        dsimp only
        omega
      · have hstep := hd.empty
        have hf := hbalance Entry.empty
        have hold := hx.sized
        dsimp only
        omega
    all_goals
      rw [hpart] at hpart'
      cases hpart'
  · have hsame : s'.registry = x.store.registry := by
      rcases effect_cases he with ⟨hpart', -⟩ | ⟨-, s₁, -, rfl⟩ | ⟨-, s₁, -, rfl⟩ | ⟨-, hs'⟩
      · exact absurd hpart' hpart
      · rfl
      · rfl
      · exact State.step_registry hs'
    have hkeep : ∀ f, Even f → (x.enter t a r).weigh f = x.ledger.weigh f := by
      intro f hf
      have hbalance := hf.balanced (r := r) x.store hpart
      have hf := hweigh f
      omega
    refine ⟨hsame ▸ hx.kept, fun h => ?_, fun h key hlive => ?_, fun n => ?_, ?_⟩
    · dsimp only
      rw [hsame, hkeep _ (.counted h)]
      exact hx.known h
    · dsimp only at hlive ⊢
      rw [hsame] at hlive ⊢
      rw [hkeep _ (.backed h key)]
      exact hx.backed h key hlive
    · dsimp only
      rw [hsame, hkeep _ (.named n)]
      exact hx.names n
    · exact (hkeep _ .empty).trans hx.sized

end Counted

end LlmdAsync.SqlFlow.QuotaStore
