import LlmdAsync.FlowControl.Gate

/-!
# Gates keep no reservation they do not report

A call of a gate takes reservations and gives some of them back.  The two are compared along every
path of the call, whatever other callers do meanwhile, and over every nesting of gates
(`Gate.apply_follows`).

Then any number of callers share the local gates of a process.  Each of them makes calls, keeps what
they appended to its list, and at last runs the list.
-/

namespace LlmdAsync.FlowControl

open List Function Multiset Gate GateAction Prog GateReturn

/-! ### The ledger of a call -/

/-- The reservation that an action has brought.  An `AcquireSlot` that errs counts as one that has
brought none, even if it took effect in the store.  The functions that give reservations back are
taken to succeed. -/
def GateAction.granted : (a : GateAction) → a.Reply → Option Hold
  | .semSend gate, .ok id => some ⟨id, .sem gate⟩
  | .tryEnter gate, some id => some ⟨id, .entry gate⟩
  | .acquireSlot store key _, .ok (some id) => some ⟨id, .slot store key⟩
  | _, _ => none

/-- The reservation that an action gives back. -/
def GateAction.returned : GateAction → Option Hold
  | .semReceive h => some h
  | .leave h => some h
  | .releaseSlot h => some h
  | _ => none

/-- What an action adds to `inFlight` of a gate in blocking mode. -/
def GateAction.counted : GateAction → ℕ → ℤ
  | .count gate d, gate' => if gate' = gate then d else 0
  | _, _ => 0

/-- The reservations taken along a path. -/
def taken (tr : List (Sigma GateAction.Reply)) : Multiset Hold :=
  tr.filterMap fun e => e.1.granted e.2

/-- The reservations given back along a path. -/
def released (tr : List (Sigma GateAction.Reply)) : Multiset Hold :=
  tr.filterMap fun e => e.1.returned

/-- What a path adds to `inFlight` of a gate in blocking mode. -/
def counted (tr : List (Sigma GateAction.Reply)) (gate : ℕ) : ℤ :=
  (tr.map fun e => e.1.counted gate).sum

/-- How many of the reservations are places in the semaphore of the gate. -/
def semPlaces (hs : List Hold) (gate : ℕ) : ℤ :=
  hs.countP fun h => decide (h.resource = .sem gate)

@[simp] lemma taken_append (tr tr' : List (Sigma GateAction.Reply)) :
    taken (tr ++ tr') = taken tr + taken tr' := by
  simp [taken, ← coe_add]

@[simp] lemma released_append (tr tr' : List (Sigma GateAction.Reply)) :
    released (tr ++ tr') = released tr + released tr' := by
  simp [released, ← coe_add]

@[simp] lemma counted_append (tr tr' : List (Sigma GateAction.Reply)) (gate : ℕ) :
    counted (tr ++ tr') gate = counted tr gate + counted tr' gate := by
  simp [counted]

lemma semPlaces_append (hs hs' : List Hold) (gate : ℕ) :
    semPlaces (hs ++ hs') gate = semPlaces hs gate + semPlaces hs' gate := by
  simp [semPlaces]

lemma semPlaces_cons (h : Hold) (hs : List Hold) (gate : ℕ) :
    semPlaces (h :: hs) gate = semPlaces [h] gate + semPlaces hs gate :=
  semPlaces_append [h] hs gate

/-- What a caller holds, and its share of the `inFlight` counts of gates in blocking mode. -/
@[ext] structure Ledger where
  own : Multiset Hold
  share : ℕ → ℤ

namespace Ledger

/-- The ledger of a caller with this list of releases. -/
def of (hs : List Hold) : Ledger := ⟨hs, semPlaces hs⟩

/-- An action and its answer, entered in the ledger. -/
def enter (l : Ledger) (a : GateAction) (r : a.Reply) : Ledger :=
  ⟨l.own + (a.granted r).toList - a.returned.toList, fun gate => l.share gate + a.counted gate⟩

@[simp] lemma enter_own (l : Ledger) (a : GateAction) (r : a.Reply) :
    (l.enter a r).own = l.own + (a.granted r).toList - a.returned.toList := rfl

@[simp] lemma enter_share (l : Ledger) (a : GateAction) (r : a.Reply) (gate : ℕ) :
    (l.enter a r).share gate = l.share gate + a.counted gate := rfl

@[simp] lemma coe_snoc (hs : List Hold) (h : Hold) :
    ((hs ++ [h] : List Hold) : Multiset Hold) = ↑hs + {h} := rfl

lemma enter_nothing (l : Ledger) {a : GateAction} {r : a.Reply} (hg : a.granted r = none)
    (hr : a.returned = none) (hc : ∀ gate, a.counted gate = 0) : l.enter a r = l := by
  ext1
  · simp [hg, hr]
  · ext gate
    simp [hc gate]

lemma enter_granted (hs : List Hold) {a : GateAction} {r : a.Reply} {h : Hold}
    (hg : a.granted r = some h) (hr : a.returned = none) (hc : ∀ gate, a.counted gate = 0)
    (hres : ∀ gate, h.resource ≠ .sem gate) : (of hs).enter a r = of (hs ++ [h]) := by
  ext1
  · simp [of, hg, hr]
  · ext gate
    simp [of, hc gate, semPlaces, hres gate]

lemma of_perm {hs hs' : List Hold} (h : hs.Perm hs') : of hs = of hs' := by
  have hplaces : semPlaces hs = semPlaces hs' :=
    funext fun gate => congrArg Nat.cast (h.countP_eq _)
  rw [of, of, hplaces, coe_eq_coe.mpr h]

end Ledger

section Follows

variable (locals : ℕ → LocalGate)

/-- Reservations on a local gate are of the kind that its mode hands out. -/
def Hold.Fits (h : Hold) : Prop :=
  match h.resource with
  | .sem gate => (locals gate).gatingMode = .blocking
  | .entry gate => (locals gate).gatingMode = .classifying
  | .slot .. => True

/-- Actions give back what the caller holds, and fit the mode of their gate. -/
def Permitted (a : GateAction) (l : Ledger) : Prop :=
  (∀ h ∈ a.returned, h ∈ l.own) ∧
    match a with
    | .semSend gate => (locals gate).gatingMode = .blocking
    | .count gate _ => (locals gate).gatingMode = .blocking
    | .tryEnter gate => (locals gate).gatingMode = .classifying
    | .semReceive h => ∃ gate, h.resource = .sem gate
    | .leave h => ∃ gate, h.resource = .entry gate
    | .releaseSlot h => ∃ store key, h.resource = .slot store key
    | _ => True

/-- The code enters its actions in the ledger and returns with `Q`. -/
abbrev Follows {α : Type} (p : GateCode α) (Q : α → Ledger → Prop) (l : Ledger) : Prop :=
  p.Follows (Permitted locals) (fun a r l => l.enter a r) Q l

/-- What a call leaves: the caller holds what its list says.  The list has grown, or is what it was
if the gate has not continued. -/
structure Returned (rel : List Hold) (r : GateReturn) (l : Ledger) : Prop where
  ledger : l = .of r.releases
  /-- The list has only grown, by reservations that fit their gates. -/
  grown : ∃ kept, r.releases = rel ++ kept ∧ (∀ h ∈ kept, h.Fits locals) ∧
    (r.proceeds = false → kept = [])

variable {locals}

variable {l : Ledger}

lemma Returned.same (v : Except String Verdict) (req : GateRequest) (rel : List Hold) :
    Returned locals rel ⟨v, req, rel⟩ (.of rel) :=
  ⟨rfl, [], (append_nil rel).symm, by simp, fun _ => rfl⟩

/-- An action that reserves and returns nothing. -/
lemma Returned.idle {a : GateAction} {r : a.Reply} (hg : a.granted r = none)
    (hr : a.returned = none) (hc : ∀ gate, a.counted gate = 0) (v : Except String Verdict)
    (req : GateRequest) (rel : List Hold) :
    Returned locals rel ⟨v, req, rel⟩ ((Ledger.of rel).enter a r) := by
  rw [Ledger.enter_nothing _ hg hr hc]
  exact .same v req rel

lemma Returned.snoc {h : Hold} (hfit : h.Fits locals) (req : GateRequest) (rel : List Hold) :
    Returned locals rel ⟨.ok .proceed, req, rel ++ [h]⟩ (.of (rel ++ [h])) :=
  ⟨rfl, [h], rfl, by simpa using hfit, by simp [proceeds, Verdict.proceed]⟩

lemma Follows.step {α : Type} {a : GateAction} {f : a.Reply → GateCode α} {Q : α → Ledger → Prop}
    (ha : Permitted locals a l)
    (h : ∀ r, Follows locals (f r) Q (l.enter a r)) : Follows locals (call a >>= f) Q l :=
  Prog.Follows.step ha h

lemma Follows.call {a : GateAction} {Q : a.Reply → Ledger → Prop} (ha : Permitted locals a l)
    (h : ∀ r, Q r (l.enter a r)) : Follows locals (call a) Q l :=
  ⟨ha, h⟩

lemma release_follows {h : Hold} (hfit : h.Fits locals) (rest : List Hold) :
    Follows locals h.release (fun _ l => l = .of rest) (.of (h :: rest)) := by
  obtain ⟨id, resource⟩ := h
  cases resource with
  | sem gate =>
    refine Follows.step ⟨by simp [GateAction.returned, Ledger.of], gate, rfl⟩ fun _ => ?_
    refine Follows.call ⟨by simp [GateAction.returned], hfit⟩ fun _ => ?_
    ext1
    · simp [Ledger.of, GateAction.granted, GateAction.returned]
    · ext gate'
      rcases eq_or_ne gate' gate with rfl | hne
      · simp [Ledger.of, GateAction.counted, semPlaces]
      · simp [Ledger.of, GateAction.counted, semPlaces, hne, hne.symm]
  | entry gate =>
    refine Follows.call ⟨by simp [GateAction.returned, Ledger.of], gate, rfl⟩ fun _ => ?_
    ext1
    · simp [Ledger.of, GateAction.granted, GateAction.returned]
    · ext gate'
      simp [Ledger.of, GateAction.counted, semPlaces]
  | slot store key =>
    refine Follows.call ⟨by simp [GateAction.returned, Ledger.of], store, key, rfl⟩ fun _ => ?_
    ext1
    · simp [Ledger.of, GateAction.granted, GateAction.returned]
    · ext gate'
      simp [Ledger.of, GateAction.counted, semPlaces]

lemma releaseAll_follows {hs : List Hold} (hfit : ∀ h ∈ hs, h.Fits locals) (rest : List Hold) :
    Follows locals (releaseAll hs) (fun _ l => l = .of rest) (.of (hs ++ rest)) := by
  induction hs with
  | nil => exact rfl
  | cons h hs ih =>
    have hrelease := release_follows (hfit h mem_cons_self) (hs ++ rest)
    refine .bind (hrelease.weaken fun _ l hl => ?_)
    rw [hl]
    exact ih fun h' hh' => hfit h' (mem_cons_of_mem h hh')

/-! ### Leaves -/

lemma QuotaGate.finish_refused (g : QuotaGate) (key : String) (req : GateRequest)
    (rel : List Hold) : Returned locals rel (g.finish key req rel (.ok none)) (.of rel) := by
  cases hmode : g.gatingMode with
  | blocking | classifying => simpa only [QuotaGate.finish, hmode] using Returned.same _ _ rel

lemma QuotaGate.apply_follows (g : QuotaGate) (req : GateRequest) (rel : List Hold) :
    Follows locals (g.apply req rel) (Returned locals rel) (.of rel) := by
  unfold QuotaGate.apply
  cases Hash.hget req.metadata g.attr with
  | none => exact Returned.same _ req rel
  | some val =>
    cases g.mode with
    | concurrency =>
      refine Follows.step ⟨by simp [returned], trivial⟩ fun slot => ?_
      match slot with
      | .error e =>
        exact .idle rfl rfl (fun _ => rfl) _ req rel
      | .ok none =>
        rw [Ledger.enter_nothing _ rfl rfl fun _ => rfl]
        exact g.finish_refused _ req rel
      | .ok (some id) =>
        rw [Ledger.enter_granted _ rfl rfl (fun _ => rfl) (by simp)]
        exact Returned.snoc (by exact trivial) _ rel
    | rateLimit =>
      refine Follows.step ⟨by simp [returned], trivial⟩ fun admitted => ?_
      rw [Ledger.enter_nothing _ rfl rfl fun _ => rfl]
      match admitted with
      | .error e => exact Returned.same _ req rel
      | .ok false => exact g.finish_refused _ req rel
      | .ok true =>
        have hsame := @Returned.same locals (.ok .proceed)
          (req.setClassification classificationReserved) rel
        simpa [Follows, QuotaGate.finish, Except.map] using hsame

lemma LocalGate.apply_follows (gate : ℕ) (req : GateRequest) (rel : List Hold) :
    Follows locals ((locals gate).apply gate req rel) (Returned locals rel) (.of rel) := by
  unfold LocalGate.apply
  split
  · exact Returned.same _ req rel
  · cases hmode : (locals gate).gatingMode with
    | blocking =>
      refine Follows.step ⟨by simp [returned], hmode⟩ fun sent => ?_
      match sent with
      | .error e =>
        exact .idle rfl rfl (fun _ => rfl) _ req rel
      | .ok id =>
        refine Follows.step ⟨by simp [returned], hmode⟩ fun u => ?_
        have hentered : ((Ledger.of rel).enter (.semSend gate) (.ok id)).enter (.count gate 1) u =
            .of (rel ++ [⟨id, .sem gate⟩]) := by
          ext1
          · simp [Ledger.of, granted, returned]
          · ext gate'
            rcases eq_or_ne gate' gate with rfl | hne
            · simp [Ledger.of, GateAction.counted, semPlaces]
            · simp [Ledger.of, GateAction.counted, semPlaces, hne, hne.symm]
        rw [hentered]
        exact Returned.snoc (by exact hmode) req rel
    | classifying =>
      refine Follows.step ⟨by simp [returned], hmode⟩ fun entered => ?_
      match entered with
      | none =>
        exact .idle rfl rfl (fun _ => rfl) _ req rel
      | some id =>
        rw [Ledger.enter_granted _ rfl rfl (fun _ => rfl) (by simp)]
        exact Returned.snoc (by exact hmode) req rel

/-! ### Trees -/

variable {r : GateReturn}

lemma rollback_follows {rel kept : List Hold} (hrel : r.releases = rel ++ kept)
    (hkept : ∀ h ∈ kept, h.Fits locals) :
    Follows locals (rollback rel.length r) (Returned locals rel) (.of r.releases) := by
  have hdrop : r.releases.drop rel.length = kept := by rw [hrel, drop_left]
  have htake : r.releases.take rel.length = rel := by rw [hrel, take_left]
  have hperm : r.releases.Perm (kept.reverse ++ rel) := by
    rw [hrel]
    exact perm_append_comm.trans ((reverse_perm kept).symm.append_right rel)
  unfold rollback
  rw [hdrop, htake, Ledger.of_perm hperm]
  refine .bind ?_
  refine (releaseAll_follows (fun h hh => hkept h (mem_reverse.mp hh)) rel).weaken ?_
  intro _ l hl
  rw [hl]
  exact Returned.same _ _ rel

lemma Returned.wrap {rel : List Hold} {r' : GateReturn} (h : Returned locals rel r l)
    (hrel : r'.releases = r.releases) (hproceeds : r.proceeds = true → r'.proceeds = true) :
    Returned locals rel r' l := by
  obtain ⟨hl, kept, hkept, hfit, hstop⟩ := h
  refine ⟨hrel ▸ hl, kept, hrel ▸ hkept, hfit, fun hstop' => hstop ?_⟩
  by_contra hgo
  rw [hproceeds (by simpa using hgo)] at hstop'
  cases hstop'

mutual

/-- After `Apply` the caller holds what its list says. -/
theorem Gate.apply_follows (g : Gate) (req : GateRequest) (rel : List Hold) :
    Follows locals (g.apply locals req rel) (Returned locals rel) (.of rel) := by
  match g with
  | .constOpen =>
    rw [apply]
    exact Returned.same _ req rel
  | .budget source =>
    rw [apply]
    refine Follows.step ⟨by simp [returned], trivial⟩ fun budget => ?_
    exact .idle rfl rfl (fun _ => rfl) _ req rel
  | .leasedRate gate =>
    rw [apply]
    refine Follows.step ⟨by simp [returned], trivial⟩ fun allowed => ?_
    exact .idle rfl rfl (fun _ => rfl) _ req rel
  | .quota g =>
    rw [apply]
    exact g.apply_follows req rel
  | .localConcurrency gate =>
    rw [apply]
    exact LocalGate.apply_follows gate req rel
  | .composite gates =>
    have hchain := applyChain_follows gates req rel [] (by simp)
    rw [append_nil] at hchain
    rw [apply]
    exact hchain
  | .waitOnRefuse inner =>
    rw [apply]
    refine .bind ((apply_follows inner req rel).weaken ?_)
    exact fun r l h => h.wrap rfl proceeds_waitOnRefuse
  | .tierPriority saturation tierLabel =>
    rw [apply]
    refine .bind ((apply_follows saturation req rel).weaken ?_)
    refine fun r l h => h.wrap rfl fun hr => ?_
    obtain ⟨v, hv, hproceed⟩ := exists_of_proceeds hr
    exact proceeds_tierPriority hv (by simp [hproceed]) tierLabel

/-- `ApplyChain`, when the gates before have appended `kept`. -/
theorem Gate.applyChain_follows (gates : List Gate) (req : GateRequest) (rel kept : List Hold)
    (hkept : ∀ h ∈ kept, h.Fits locals) :
    Follows locals (applyChain locals gates rel.length req (rel ++ kept))
      (Returned locals rel) (.of (rel ++ kept)) := by
  match gates with
  | [] =>
    rw [applyChain]
    exact ⟨rfl, kept, rfl, hkept, by simp [proceeds, Verdict.proceed]⟩
  | gate :: gates =>
    rw [applyChain]
    refine .bind ((apply_follows gate req (rel ++ kept)).weaken ?_)
    rintro r l ⟨rfl, more, hmore, hfit, -⟩
    rw [append_assoc] at hmore
    have hfits : ∀ h ∈ kept ++ more, h.Fits locals := by
      intro h hh
      exact (mem_append.mp hh).elim (hkept h) (hfit h)
    split
    · rw [hmore]
      exact applyChain_follows gates r.req rel (kept ++ more) hfits
    · exact rollback_follows hmore hfits

end

/-! ### Paths of a call -/

/-- What the ledger says of a path. -/
structure Balanced (tr : List (Sigma GateAction.Reply)) (l l' : Ledger) : Prop where
  own : l.own + taken tr = l'.own + released tr
  share : ∀ gate, l.share gate + counted tr gate = l'.share gate

variable {tr : List (Sigma GateAction.Reply)}

lemma Balanced.cons {a : GateAction} {r : a.Reply} {l l' : Ledger} (ha : Permitted locals a l)
    (htr : Balanced tr (l.enter a r) l') :
    Balanced (⟨a, r⟩ :: tr) l l' := by
  refine ⟨?_, fun gate => ?_⟩
  · have htaken : taken (⟨a, r⟩ :: tr) = (a.granted r).toList + taken tr := by
      cases hg : a.granted r <;> simp [taken, hg]
    have hreleased : released (⟨a, r⟩ :: tr) = a.returned.toList + released tr := by
      cases hr : a.returned <;> simp [released, hr]
    have hle : (a.returned.toList : Multiset Hold) ≤ l.own + (a.granted r).toList := by
      cases hr : a.returned with
      | none => exact Multiset.zero_le _
      | some h =>
        have hmem : h ∈ l.own := ha.1 h hr
        simpa using .inl hmem
    have hown := htr.own
    rw [Ledger.enter_own] at hown
    rw [htaken, hreleased, ← add_assoc, ← Multiset.sub_add_cancel hle, add_right_comm, hown,
      add_assoc, add_comm (released tr)]
  · have hcounted := htr.share gate
    simp only [Ledger.enter_share] at hcounted
    rw [← hcounted, add_assoc]
    rfl

lemma Balanced.nil (l : Ledger) : Balanced [] l l := ⟨by simp [taken, released], by simp [counted]⟩

lemma Follows.balanced {α : Type} {p : GateCode α} {Q : α → Ledger → Prop} {l : Ledger}
    (h : Follows locals p Q l) {a : α} (hp : p.Path tr a) :
    ∃ l', Q a l' ∧ Balanced tr l l' :=
  Prog.Follows.path Balanced.nil (fun _ _ _ _ _ ha htr => htr.cons ha) h hp

lemma Gate.apply_balanced {g : Gate} {req : GateRequest} {rel : List Hold} {r : GateReturn}
    (hp : (g.apply locals req rel).Path tr r) :
    ∃ kept, r.releases = rel ++ kept ∧ taken tr = kept + released tr ∧
      (∀ gate, counted tr gate = semPlaces kept gate) ∧ (r.proceeds = false → kept = []) := by
  obtain ⟨l, ⟨rfl, kept, hkept, -, hstop⟩, hown, hshare⟩ :=
    (apply_follows g req rel).balanced hp
  refine ⟨kept, hkept, ?_, fun gate => ?_, hstop⟩
  · simp only [Ledger.of, hkept, ← coe_add, add_assoc] at hown
    exact add_left_cancel hown
  · have hgate := hshare gate
    simp only [Ledger.of, hkept, semPlaces_append] at hgate
    exact add_left_cancel hgate

lemma release_path {h : Hold} {u : Unit} (hp : h.release.Path tr u) :
    released tr = {h} ∧ taken tr = 0 ∧ ∀ gate, counted tr gate = - semPlaces [h] gate := by
  obtain ⟨id, resource⟩ := h
  cases resource with
  | sem gate =>
    obtain ⟨r, tr', rfl, hcount⟩ := path_step hp
    obtain rfl := path_perform hcount
    refine ⟨rfl, rfl, fun gate' => ?_⟩
    rcases eq_or_ne gate' gate with rfl | hne
    · simp [counted, GateAction.counted, semPlaces]
    · simp [counted, GateAction.counted, semPlaces, hne, hne.symm]
  | entry gate | slot store key =>
    obtain rfl := path_perform hp
    exact ⟨rfl, rfl, fun _ => rfl⟩

lemma releaseAll_path {hs : List Hold} {u : Unit} (hp : (releaseAll hs).Path tr u) :
    released tr = hs ∧ taken tr = 0 ∧ ∀ gate, counted tr gate = - semPlaces hs gate := by
  induction hs generalizing tr with
  | nil =>
    obtain ⟨rfl, -⟩ := path_pure hp
    exact ⟨rfl, rfl, fun _ => rfl⟩
  | cons h hs ih =>
    obtain ⟨tr₁, tr₂, u', rfl, hhead, htail⟩ := path_bind hp
    obtain ⟨hreleased₁, htaken₁, hcounted₁⟩ := release_path hhead
    obtain ⟨hreleased₂, htaken₂, hcounted₂⟩ := ih htail
    refine ⟨?_, ?_, fun gate => ?_⟩
    · rw [released_append, hreleased₁, hreleased₂]
      rfl
    · rw [taken_append, htaken₁, htaken₂, add_zero]
    · rw [counted_append, hcounted₁, hcounted₂, ← neg_add, semPlaces_cons h hs]

end Follows

/-! ### Callers -/

/-- The state that the callers of local gates share, and what each of them holds: its own name and
the reservation. -/
structure GateState where
  /-- How many places of the semaphore are taken. -/
  sem : ℕ → ℕ
  inFlight : ℕ → ℤ
  next : ℕ
  held : Multiset (ℕ × Hold)

/-- How an action turns out. -/
inductive GateChoice where
  /-- The action takes effect. -/
  | go
  | budget (b : ℚ)
  | allowed (b : Option Bool)
  | slot (r : Except String Bool)
  | admitted (r : Except String Bool)
  /-- The context ends first. -/
  | canceled (e : String)

namespace GateState

def init : GateState := ⟨fun _ => 0, fun _ => 0, 0, 0⟩

def take (s : GateState) (t : ℕ) (resource : Resource) : GateState :=
  { s with next := s.next + 1, held := (t, ⟨s.next, resource⟩) ::ₘ s.held }

/-- The caller gives a reservation back. -/
def give (s : GateState) (t : ℕ) (h : Hold) : GateState :=
  { s with held := s.held.erase (t, h) }

/-- The occupancy of the semaphore changes. -/
def setSem (s : GateState) (gate n : ℕ) : GateState :=
  { s with sem := Function.update s.sem gate n }

/-- `inFlight` changes. -/
def addInFlight (s : GateState) (gate : ℕ) (d : ℤ) : GateState :=
  { s with inFlight := Function.update s.inFlight gate (s.inFlight gate + d) }

def own (s : GateState) (t : ℕ) : Multiset Hold :=
  (s.held.filter fun e => e.1 = t).map Prod.snd

/-- How many reservations are held on the resource. -/
def count (s : GateState) (resource : Resource) : ℕ :=
  s.held.countP fun e => e.2.resource = resource

/-- How many reservations are held on a local gate. -/
def heldOn (s : GateState) (gate : ℕ) : ℕ := s.count (.sem gate) + s.count (.entry gate)

variable {s : GateState} {t : ℕ} {h : Hold}

lemma mem_own : h ∈ s.own t ↔ (t, h) ∈ s.held := by
  simp [own]

lemma own_take (s : GateState) (t : ℕ) (resource : Resource) :
    (s.take t resource).own t = s.own t + {⟨s.next, resource⟩} := by
  simp [own, take, add_comm]

lemma own_take_of_ne (s : GateState) {u : ℕ} (hu : u ≠ t) (resource : Resource) :
    (s.take t resource).own u = s.own u := by
  simp [own, take, hu.symm]

lemma own_give (hh : h ∈ s.own t) :
    (s.give t h).own t = s.own t - {h} := by
  have hmem := mem_own.mp hh
  have hown : s.own t = (s.give t h).own t + {h} := by
    conv_lhs => rw [own, ← cons_erase hmem]
    simp [own, give, add_comm]
  rw [hown, Multiset.add_sub_cancel_right]

lemma own_give_of_ne (s : GateState) {u : ℕ} (hu : u ≠ t) (h : Hold) :
    (s.give t h).own u = s.own u := by
  by_cases hmem : (t, h) ∈ s.held
  · conv_rhs => rw [own, ← cons_erase hmem]
    simp [own, give, hu.symm]
  · rw [give, erase_of_notMem hmem]

lemma count_take (s : GateState) (t : ℕ) (resource resource' : Resource) :
    (s.take t resource).count resource' =
      s.count resource' + if resource = resource' then 1 else 0 := by
  simp [count, take, Multiset.countP_cons]

lemma count_give (hh : h ∈ s.own t) (resource : Resource) :
    s.count resource = (s.give t h).count resource + if h.resource = resource then 1 else 0 := by
  conv_lhs => rw [count, ← Multiset.cons_erase (mem_own.mp hh)]
  simp [count, give, Multiset.countP_cons]

@[simp] lemma take_sem (s : GateState) (t : ℕ) (resource : Resource) :
    (s.take t resource).sem = s.sem := rfl

@[simp] lemma take_inFlight (s : GateState) (t : ℕ) (resource : Resource) :
    (s.take t resource).inFlight = s.inFlight := rfl

@[simp] lemma give_sem (s : GateState) (t : ℕ) (h : Hold) : (s.give t h).sem = s.sem := rfl

@[simp] lemma give_inFlight (s : GateState) (t : ℕ) (h : Hold) :
    (s.give t h).inFlight = s.inFlight := rfl

@[simp] lemma setSem_sem (s : GateState) (gate n gate' : ℕ) :
    (s.setSem gate n).sem gate' = if gate' = gate then n else s.sem gate' :=
  update_apply ..

@[simp] lemma setSem_inFlight (s : GateState) (gate n : ℕ) :
    (s.setSem gate n).inFlight = s.inFlight := rfl

@[simp] lemma addInFlight_sem (s : GateState) (gate : ℕ) (d : ℤ) :
    (s.addInFlight gate d).sem = s.sem := rfl

@[simp] lemma addInFlight_inFlight (s : GateState) (gate : ℕ) (d : ℤ) (gate' : ℕ) :
    (s.addInFlight gate d).inFlight gate' =
      if gate' = gate then s.inFlight gate + d else s.inFlight gate' :=
  update_apply ..

@[simp] lemma count_setSem (s : GateState) (gate n : ℕ) (resource : Resource) :
    (s.setSem gate n).count resource = s.count resource := rfl

@[simp] lemma count_addInFlight (s : GateState) (gate : ℕ) (d : ℤ) (resource : Resource) :
    (s.addInFlight gate d).count resource = s.count resource := rfl

end GateState

section Callers

variable (locals : ℕ → LocalGate)

/-- What an action does.  Sends to a full semaphore and receives from an empty one block; the other
stores may answer anything. -/
def GateAction.exec (t : ℕ) : (a : GateAction) → GateChoice → GateState →
    Option (a.Reply × GateState)
  | .budget _, .budget b, s => some (b, s)
  | .leasedRate _, .allowed b, s => some (b, s)
  | .acquireSlot .., .slot (.error e), s => some (.error e, s)
  | .acquireSlot .., .slot (.ok false), s => some (.ok none, s)
  | .acquireSlot store key _, .slot (.ok true), s =>
    some (.ok (some s.next), s.take t (.slot store key))
  | .admitRate .., .admitted r, s => some (r, s)
  | .releaseSlot h, .go, s => some ((), s.give t h)
  | .semSend gate, .go, s =>
    if (s.sem gate : ℤ) < (locals gate).limit then
      some (.ok s.next, (s.take t (.sem gate)).setSem gate (s.sem gate + 1))
    else none
  | .semSend _, .canceled e, s => some (.error e, s)
  | .semReceive h, .go, s =>
    match h.resource with
    | .sem gate =>
      if 0 < s.sem gate then some ((), (s.give t h).setSem gate (s.sem gate - 1)) else none
    | _ => none
  | .count gate d, .go, s => some ((), s.addInFlight gate d)
  | .tryEnter gate, .go, s =>
    if s.inFlight gate ≥ (locals gate).limit then some (none, s)
    else some (some s.next, (s.take t (.entry gate)).addInFlight gate 1)
  | .leave h, .go, s =>
    match h.resource with
    | .entry gate => some ((), (s.give t h).addInFlight gate (-1))
    | _ => none
  | _, _, _ => none

/-- A caller applies gates to requests, with one list, and at last runs the list. -/
def session : List (Gate × GateRequest) → List Hold → GateCode Unit
  | [], rel => releaseAll rel.reverse
  | (g, req) :: calls, rel => do
    let r ← g.apply locals req rel
    session calls r.releases

/-- Any number of callers of the gates of a process. -/
def callers : ThreadSystem GateAction GateAction.Reply ℕ GateState GateChoice
    (List (Gate × GateRequest)) Empty where
  exec t a c s := a.exec locals t c s
  program _ calls := session locals calls []
  starts _ _ _ := true
  env e _ := e.elim
  kills e _ := e.elim

/-- Semaphores and counters say how many reservations are held, and their limits are kept. -/
structure GateState.Sound (s : GateState) : Prop where
  fits : ∀ e ∈ s.held, e.2.Fits locals
  sem : ∀ gate, s.count (.sem gate) = s.sem gate
  semLimit : ∀ gate, s.sem gate ≤ (locals gate).limit.toNat
  entry : ∀ gate, (locals gate).gatingMode = .classifying →
    (s.count (.entry gate) : ℤ) = s.inFlight gate
  entryLimit : ∀ gate, s.count (.entry gate) ≤ (locals gate).limit.toNat

variable {locals}

namespace GateState.Sound

variable {s : GateState} (h : s.Sound locals)

include h

variable {t gate : ℕ} {hold : Hold}

lemma heldOn_le (gate : ℕ) : s.heldOn gate ≤ (locals gate).limit.toNat := by
  have hnone : ∀ resource, ¬Hold.Fits locals ⟨0, resource⟩ → s.count resource = 0 := by
    refine fun resource hfit => countP_eq_zero.mpr fun e he hres => hfit ?_
    rw [← hres]
    exact h.fits e he
  cases hmode : (locals gate).gatingMode with
  | blocking =>
    rw [heldOn, hnone (.entry gate) (by simp [Hold.Fits, hmode]), h.sem gate]
    exact h.semLimit gate
  | classifying =>
    rw [heldOn, hnone (.sem gate) (by simp [Hold.Fits, hmode]), Nat.zero_add]
    exact h.entryLimit gate

lemma fits_take {resource : Resource} (hfit : Hold.Fits locals ⟨s.next, resource⟩) :
    ∀ e ∈ (s.take t resource).held, e.2.Fits locals := by
  intro e he
  rcases mem_cons.mp he with rfl | he
  · exact hfit
  · exact h.fits e he

lemma fits_give (t : ℕ) (hold : Hold) : ∀ e ∈ (s.give t hold).held, e.2.Fits locals :=
  fun e he => h.fits e (mem_of_mem_erase he)

lemma takeSlot (t store : ℕ) (key : String) : (s.take t (.slot store key)).Sound locals where
  fits := h.fits_take trivial
  sem gate := by simpa [count_take] using h.sem gate
  semLimit := h.semLimit
  entry gate hmode := by simpa [count_take] using h.entry gate hmode
  entryLimit gate := by simpa [count_take] using h.entryLimit gate

lemma giveSlot (hh : hold ∈ s.own t) {store : ℕ} {key : String}
    (hres : hold.resource = .slot store key) : (s.give t hold).Sound locals where
  fits := h.fits_give t hold
  sem gate := by simpa [count_give hh, hres] using h.sem gate
  semLimit := h.semLimit
  entry gate hmode := by simpa [count_give hh, hres] using h.entry gate hmode
  entryLimit gate := by simpa [count_give hh, hres] using h.entryLimit gate

lemma send (hmode : (locals gate).gatingMode = .blocking)
    (hroom : (s.sem gate : ℤ) < (locals gate).limit) (t : ℕ) :
    ((s.take t (.sem gate)).setSem gate (s.sem gate + 1)).Sound locals where
  fits := h.fits_take hmode
  sem gate' := by
    rcases eq_or_ne gate' gate with rfl | hne
    · simpa [count_take] using h.sem gate'
    · simpa [count_take, hne, hne.symm] using h.sem gate'
  semLimit gate' := by
    rcases eq_or_ne gate' gate with rfl | hne
    · have hle : s.sem gate' + 1 ≤ (locals gate').limit.toNat := by omega
      simpa using hle
    · simpa [hne] using h.semLimit gate'
  entry gate' hmode' := by simpa [count_take] using h.entry gate' hmode'
  entryLimit gate' := by simpa [count_take] using h.entryLimit gate'

lemma receive (hh : hold ∈ s.own t) (hres : hold.resource = .sem gate) :
    ((s.give t hold).setSem gate (s.sem gate - 1)).Sound locals where
  fits := h.fits_give t hold
  sem gate' := by
    have hsem := h.sem gate'
    rw [count_give hh, hres] at hsem
    rcases eq_or_ne gate' gate with rfl | hne
    · simp only [↓reduceIte] at hsem
      simp only [count_setSem, setSem_sem, ↓reduceIte]
      omega
    · simpa [hne, hne.symm] using hsem
  semLimit gate' := by
    have hle := h.semLimit gate'
    rcases eq_or_ne gate' gate with rfl | hne
    · simp only [setSem_sem, ↓reduceIte]
      omega
    · simpa [hne] using hle
  entry gate' hmode' := by simpa [count_give hh, hres] using h.entry gate' hmode'
  entryLimit gate' := by simpa [count_give hh, hres] using h.entryLimit gate'

lemma addInFlight (hmode : (locals gate).gatingMode = .blocking) (d : ℤ) :
    (s.addInFlight gate d).Sound locals where
  fits := h.fits
  sem := h.sem
  semLimit := h.semLimit
  entry gate' hmode' := by
    have hne : gate' ≠ gate := by
      rintro rfl
      exact absurd (hmode.symm.trans hmode') (by simp)
    simpa [hne] using h.entry gate' hmode'
  entryLimit := h.entryLimit

lemma enter (hmode : (locals gate).gatingMode = .classifying)
    (hroom : s.inFlight gate < (locals gate).limit) (t : ℕ) :
    ((s.take t (.entry gate)).addInFlight gate 1).Sound locals where
  fits := h.fits_take hmode
  sem gate' := by simpa [count_take] using h.sem gate'
  semLimit := h.semLimit
  entry gate' hmode' := by
    have hentry := h.entry gate' hmode'
    rcases eq_or_ne gate' gate with rfl | hne
    · simpa [count_take] using hentry
    · simpa [count_take, hne, hne.symm] using hentry
  entryLimit gate' := by
    rcases eq_or_ne gate' gate with rfl | hne
    · have hentry := h.entry gate' hmode
      have hle : s.count (.entry gate') + 1 ≤ (locals gate').limit.toNat := by omega
      simpa [count_take] using hle
    · simpa [count_take, hne.symm] using h.entryLimit gate'

lemma leave (hh : hold ∈ s.own t) (hres : hold.resource = .entry gate) :
    ((s.give t hold).addInFlight gate (-1)).Sound locals where
  fits := h.fits_give t hold
  sem gate' := by simpa [count_give hh, hres] using h.sem gate'
  semLimit := h.semLimit
  entry gate' hmode' := by
    have hentry := h.entry gate' hmode'
    rw [count_give hh, hres] at hentry
    rcases eq_or_ne gate' gate with rfl | hne
    · simp only [↓reduceIte] at hentry
      simp only [count_addInFlight, addInFlight_inFlight, ↓reduceIte, give_inFlight]
      omega
    · simpa [hne, hne.symm] using hentry
  entryLimit gate' := by
    have hle := h.entryLimit gate'
    rw [count_give hh] at hle
    simp only [count_addInFlight]
    omega

end GateState.Sound

/-- What an action may do: keep the state sound, do what the ledger says to the reservations of its
caller, and nothing to those of others. -/
structure Tracks (locals : ℕ → LocalGate) (t : ℕ) (s s' : GateState) (own : Multiset Hold) :
    Prop where
  sound : s'.Sound locals
  own : s'.own t = own
  others : ∀ u, u ≠ t → s.own u = s'.own u

variable {t : ℕ} {s s' : GateState} {l : Ledger} {a : GateAction}

lemma Tracks.same {r : a.Reply} (hs : s.Sound locals) (hown : s.own t = l.own)
    (hg : a.granted r = none) (hr : a.returned = none) : Tracks locals t s s (l.enter a r).own :=
  ⟨hs, by simp [hown, hg, hr], fun _ _ => rfl⟩

lemma Tracks.take {r : a.Reply}
    {resource : Resource} (hs : s'.Sound locals) (hown : s.own t = l.own)
    (hs' : s'.held = (s.take t resource).held) (hg : a.granted r = some ⟨s.next, resource⟩)
    (hr : a.returned = none) : Tracks locals t s s' (l.enter a r).own := by
  have hsame : ∀ u, s'.own u = (s.take t resource).own u := by simp [GateState.own, hs']
  refine ⟨hs, ?_, fun u hu => ?_⟩
  · rw [hsame, GateState.own_take, hown]
    simp [hg, hr]
  · rw [hsame, GateState.own_take_of_ne s hu]

lemma Tracks.give {r : a.Reply} {h : Hold} (hs : s'.Sound locals) (hown : s.own t = l.own)
    (hh : h ∈ s.own t) (hs' : s'.held = (s.give t h).held) (hg : a.granted r = none)
    (hr : a.returned = some h) : Tracks locals t s s' (l.enter a r).own := by
  have hsame : ∀ u, s'.own u = (s.give t h).own u := by simp [GateState.own, hs']
  refine ⟨hs, ?_, fun u hu => ?_⟩
  · rw [hsame, GateState.own_give hh, hown]
    simp [hg, hr]
  · rw [hsame, GateState.own_give_of_ne s hu]

lemma GateAction.exec_tracks {c : GateChoice} {r : a.Reply} (hs : s.Sound locals)
    (hown : s.own t = l.own) (ha : Permitted locals a l)
    (hexec : a.exec locals t c s = some (r, s')) :
    Tracks locals t s s' (l.enter a r).own := by
  obtain ⟨hreturned, ha⟩ := ha
  rw [← hown] at hreturned
  cases a with
  | budget source | leasedRate gate | admitRate store key limit window =>
    cases c <;> cases hexec
    exact .same hs hown rfl rfl
  | acquireSlot store key limit =>
    cases c with
    | slot answer =>
      match answer with
      | .error e | .ok false =>
        cases hexec
        exact .same hs hown rfl rfl
      | .ok true =>
        cases hexec
        exact .take (hs.takeSlot t store key) hown rfl rfl rfl
    | _ => cases hexec
  | releaseSlot h =>
    obtain ⟨store, key, hres⟩ := ha
    cases c with
    | go =>
      cases hexec
      exact .give (hs.giveSlot (hreturned h rfl) hres) hown (hreturned h rfl) rfl rfl rfl
    | _ => cases hexec
  | semSend gate =>
    cases c with
    | go =>
      simp only [exec] at hexec
      split at hexec
      next hroom =>
        cases hexec
        exact .take (hs.send ha hroom t) hown rfl rfl rfl
      · cases hexec
    | canceled e =>
      cases hexec
      exact .same hs hown rfl rfl
    | _ => cases hexec
  | semReceive h =>
    obtain ⟨gate, hres⟩ := ha
    cases c with
    | go =>
      simp only [exec, hres] at hexec
      split at hexec
      · cases hexec
        exact .give (hs.receive (hreturned h rfl) hres) hown (hreturned h rfl) rfl rfl rfl
      · cases hexec
    | _ => cases hexec
  | count gate d =>
    cases c with
    | go =>
      cases hexec
      have htracks := Tracks.same (a := .count gate d) (r := ()) hs hown rfl rfl
      exact ⟨hs.addInFlight ha d, htracks.own, fun _ _ => rfl⟩
    | _ => cases hexec
  | tryEnter gate =>
    cases c with
    | go =>
      simp only [exec] at hexec
      split at hexec
      · cases hexec
        exact .same hs hown rfl rfl
      next hroom =>
        cases hexec
        exact .take (hs.enter ha (not_le.mp hroom) t) hown rfl rfl rfl
    | _ => cases hexec
  | leave h =>
    obtain ⟨gate, hres⟩ := ha
    cases c with
    | go =>
      simp only [exec, hres] at hexec
      cases hexec
      exact .give (hs.leave (hreturned h rfl) hres) hown (hreturned h rfl) rfl rfl rfl
    | _ => cases hexec

lemma session_follows (calls : List (Gate × GateRequest)) {rel : List Hold}
    (hfit : ∀ h ∈ rel, h.Fits locals) :
    Follows locals (session locals calls rel) (fun _ l => l.own = 0) (.of rel) := by
  induction calls generalizing rel with
  | nil =>
    have hperm : rel.Perm (rel.reverse ++ []) := by
      rw [append_nil]
      exact (reverse_perm rel).symm
    rw [Ledger.of_perm hperm]
    refine (releaseAll_follows (fun h hh => hfit h (mem_reverse.mp hh)) []).weaken ?_
    intro _ l hl
    rw [hl]
    rfl
  | cons call calls ih =>
    refine .bind ((apply_follows call.1 call.2 rel).weaken ?_)
    rintro r l ⟨rfl, kept, hkept, hfits, -⟩
    refine ih fun h hh => ?_
    rw [hkept] at hh
    exact (mem_append.mp hh).elim (hfit h) (hfits h)

/-- A caller relies on the others to leave its reservations alone. -/
def OwnSame (t : ℕ) (s s' : GateState) : Prop := s.own t = s'.own t

instance (t : ℕ) : IsPreorder GateState (OwnSame t) where
  refl _ := rfl
  trans _ _ _ h h' := h.trans h'

lemma callers_sound {P : Pool GateAction GateAction.Reply ℕ GateState}
    (h : (callers locals).Reachable .free GateState.init P) : P.state.Sound locals := by
  have hsafe := ThreadSystem.Reachable.safe (I := GateState.Sound locals) (R := OwnSame)
    (G := fun _ _ _ => True) (E := fun t s => s.own t = 0) ?_ ?_ ?_ ?_ h
  · exact hsafe.1
  · intro t s s' hR hE
    exact hR.symm.trans hE
  · refine ⟨⟨by simp [GateState.init], ?_, ?_, ?_, ?_⟩, fun t => rfl⟩ <;>
      simp [GateState.init, GateState.count]
  · intro t calls s _ hE _ _
    have hsession := @session_follows locals calls [] (by simp)
    refine (hsession.safe (A := fun l s => s.own t = l.own) ?_ ?_ hE).weaken ?_
    · intro l s s' hA hR
      exact hR.symm.trans hA
    · intro a l s₁ c r s₂ ha hA hI _ hexec
      have htracks := exec_tracks hI hA ha hexec
      exact ⟨trivial, ⟨htracks.sound, htracks.others⟩, htracks.own⟩
    · rintro _ s' ⟨l, hl, hA⟩
      exact hA.trans hl
  · intro e
    exact e.elim

/-- Take any tree of gates.  A call that fails or does not continue leaves the list as it was and
has given back, once each, exactly the reservations it took.  A call that continues has appended
release functions; run once each, in any order, they give back exactly the reservations that the
call took and has not given back itself.  Among any number of callers, the reservations held on a
local gate never exceed its limit. -/
theorem gates_neither_leak_nor_double_release (locals : ℕ → LocalGate) :
    (∀ (g : Gate) (req : GateRequest) (rel : List Hold) (tr : List (Sigma GateAction.Reply))
        (r : GateReturn), (g.apply locals req rel).Path tr r →
      (r.proceeds = false →
        r.releases = rel ∧ released tr = taken tr ∧ ∀ gate, counted tr gate = 0) ∧
      (r.proceeds = true → ∃ kept, r.releases = rel ++ kept ∧
        ∀ order, order.Perm kept → ∀ tr' u, (releaseAll order).Path tr' u →
          taken tr' = 0 ∧ released tr + released tr' = taken tr ∧
            ∀ gate, counted tr gate + counted tr' gate = 0)) ∧
    ∀ P, (callers locals).Reachable .free GateState.init P →
      ∀ gate, P.state.heldOn gate ≤ (locals gate).limit.toNat := by
  refine ⟨fun g req rel tr r hpath => ?_, fun P hP gate => (callers_sound hP).heldOn_le gate⟩
  obtain ⟨kept, hkept, htaken, hcounted, hstop⟩ := apply_balanced hpath
  refine ⟨fun hproceeds => ?_, fun _ => ⟨kept, hkept, fun order horder tr' u hrun => ?_⟩⟩
  · obtain rfl := hstop hproceeds
    refine ⟨by rw [hkept, append_nil], ?_, hcounted⟩
    rw [htaken]
    exact (zero_add _).symm
  · obtain ⟨hreleased, htaken', hcounted'⟩ := releaseAll_path hrun
    have hsame : Ledger.of order = Ledger.of kept := Ledger.of_perm horder
    refine ⟨htaken', ?_, fun gate => ?_⟩
    · rw [htaken, hreleased, coe_eq_coe.mpr horder, add_comm]
    · have hplaces := congrArg (fun l => Ledger.share l gate) hsame
      simp only [Ledger.of] at hplaces
      rw [hcounted, hcounted', hplaces, add_neg_cancel]

end Callers

/-! ### A call that is rolled back -/

/-- Two local gates with one place each, in the two modes. -/
def twoLocals (gate : ℕ) : LocalGate := ⟨1, if gate = 0 then .blocking else .classifying⟩

def plainRequest : GateRequest := ⟨"r", .empty, .empty⟩

/-- A chain of both local gates, the second behind a tier. -/
def twoGates : Gate :=
  .composite [.localConcurrency 0, .tierPriority (.waitOnRefuse (.localConcurrency 1)) "tier",
    .budget 0]

/-- The budget is used up, and the chain gives both reservations back. -/
def rolledBack : List (Sigma GateAction.Reply) :=
  [⟨.semSend 0, .ok 5⟩, ⟨.count 0 1, ()⟩, ⟨.tryEnter 1, some 6⟩, ⟨.budget 0, (0 : ℚ)⟩,
    ⟨.leave ⟨6, .entry 1⟩, ()⟩, ⟨.semReceive ⟨5, .sem 0⟩, ()⟩, ⟨.count 0 (-1), ()⟩]

lemma rolledBack_path : (twoGates.apply twoLocals plainRequest []).Path rolledBack
    ⟨.ok .refuse, plainRequest, []⟩ :=
  .act _ (.act _ (.act _ (.act _ (.act _ (.act _ (.act _ (.done _)))))))

/-- Two callers: the first holds both places, and the second waits for the semaphore until its
context ends. -/
def twoCallers : List (Label ℕ GateChoice (List (Gate × GateRequest)) Empty) :=
  [.start 0 [(twoGates, plainRequest)], .start 1 [(twoGates, plainRequest)], .act 0 .go, .act 1 .go,
    .act 0 .go, .act 0 .go, .act 1 (.canceled "deadline")]

/-- In these runs reservations are taken and limits reached. -/
theorem rolledBack_balanced :
    (released rolledBack = taken rolledBack ∧ taken rolledBack = {⟨5, .sem 0⟩, ⟨6, .entry 1⟩}) ∧
      (((callers twoLocals).run (ThreadSystem.idle .init) twoCallers).state.heldOn 0 = 1 ∧
      ((callers twoLocals).run (ThreadSystem.idle .init) twoCallers).state.heldOn 1 = 1 ∧
      ∀ gate, ((callers twoLocals).run (ThreadSystem.idle .init) twoCallers).state.heldOn gate ≤
        (twoLocals gate).limit.toNat) := by
  refine ⟨⟨?_, rfl⟩, ?_, ?_, ?_⟩
  · have hcall := (gates_neither_leak_nor_double_release twoLocals).1 _ _ _ _ _ rolledBack_path
    exact (hcall.1 rfl).2.1
  · decide +kernel
  · decide +kernel
  · exact (gates_neither_leak_nor_double_release twoLocals).2 _
      (ThreadSystem.reachable_run _ _ twoCallers)

end LlmdAsync.FlowControl
