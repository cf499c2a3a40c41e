import LlmdAsync.FlowControl.GateReleases
import LlmdAsync.Foundation.Alone
import LlmdAsync.SqlFlow.Poll

/-!
# Polls settle every row once

The part of the run of a poll that deals with a row shows what became of the row: its result was
emitted, it was handed to the request channel, or it is given back at the end, with `Undispatch` or
with `Defer`.

The release functions that a gate has appended for a row are stored in `activeReleases` before the
row is handed over, and run if it is not.  Other goroutines share the map and may change any entry
at any time, with `Swap` and `LoadAndDelete`, so each list that was stored is taken out by one
goroutine.  To say what becomes of a list, an entry also keeps the lists that others have taken out
of it since.
-/

namespace LlmdAsync.SqlFlow

open List Function
open SqlQueue (Stamp Time)
open FlowControl (GateAction GateReturn Hold Verdict)

/-! ### Runs of a poll -/

/-- An entry of `activeReleases`, which is empty if there is none, and what other goroutines have
taken out since the poll has last changed the entry. -/
structure Entry where
  held : List Hold
  taken : List (List Hold)

/-- The lists that were stored in the entry, in order. -/
def Entry.line (e : Entry) : List (List Hold) := e.taken ++ [e.held]

/-- `activeReleases`. -/
abbrev Shelf := Stamp → Entry

namespace Shelf

/-- What other goroutines do.  Only the last list of an entry can be taken out. -/
def Later (s s' : Shelf) : Prop := ∀ stamp, (s stamp).line <+: (s' stamp).line

/-- What an action finds in the map and does to it.  All other answers are possible. -/
def Moves : (a : Action) → Shelf → a.Reply → Shelf → Prop
  | .swapReleases stamp releases, s, prev, s' =>
    prev = (s stamp).held ∧ Later (Function.update s stamp ⟨releases, []⟩) s'
  | .takeReleases stamp, s, prev, s' =>
    prev = (s stamp).held ∧ Later (Function.update s stamp ⟨[], []⟩) s'
  | _, s, _, s' => Later s s'

/-- The list that the poll has stored under the stamp is still there, or another goroutine has taken
it out. -/
def Traces (s : Shelf) (stamp : Stamp) (releases : List Hold) : Prop :=
  [releases] <+: (s stamp).line

end Shelf

/-- The actions of a run with their answers and the maps they found. -/
abbrev PollTrail := List (Shelf × Sigma Action.Reply)

/-- What is read off the actions of a trail, in order. -/
def PollTrail.read {β : Type} (trail : PollTrail) (f : Sigma Action.Reply → List β) : List β :=
  trail.flatMap fun e => f e.2

/-- The result that the result channel has accepted. -/
def emitted : Sigma Action.Reply → List ResultMessage
  | ⟨.emit result, true⟩ => [result]
  | _ => []

/-- The request that the request channel has accepted. -/
def handed : Sigma Action.Reply → List InternalRequest
  | ⟨.sendRequest ir, true⟩ => [ir]
  | _ => []

def polled : Sigma Action.Reply → List SqlQueue.Request
  | ⟨.poll .., rows⟩ => Option.getD rows []
  | _ => []

/-- The channel and the request of a goroutine that is started. -/
def spawned : Sigma Action.Reply → List (ℕ × Stamp)
  | ⟨.spawn i ir, _⟩ => [(i, ir.stamp)]
  | _ => []

/-- The channel on which an outcome is received. -/
def received : Sigma Action.Reply → List ℕ
  | ⟨.receive i, _⟩ => [i]
  | _ => []

/-- The release functions that an outcome brings. -/
def produced : Sigma Action.Reply → List Hold
  | ⟨.receive _, out⟩ => GateReturn.releases out
  | _ => []

/-- The ids of the results that a gate gives to the request it drops. -/
def ownResults : Sigma Action.Reply → List String
  | ⟨.receive _, out⟩ =>
    match GateReturn.verdict out with
    | .ok v => v.result.toList.map FlowControl.DropResult.id
    | .error _ => []
  | _ => []

/-- The release function that is run. -/
def ran : Sigma Action.Reply → List Hold
  | ⟨.gate a, _⟩ => a.returned.toList
  | _ => []

/-- What an access to the map finds and what it leaves. -/
def accesses : Sigma Action.Reply → List (List Hold × List Hold)
  | ⟨.swapReleases _ releases, prev⟩ => [(prev, releases)]
  | ⟨.takeReleases _, prev⟩ => [(prev, [])]
  | _ => []

/-- The stamps that are given back with `Undispatch`. -/
def undispatched : Sigma Action.Reply → List Stamp
  | ⟨.undispatch stamps, _⟩ => stamps
  | _ => []

/-- The stamps that are given back with `Defer`. -/
def deferred : Sigma Action.Reply → List Stamp
  | ⟨.defer stamps _, _⟩ => stamps
  | _ => []

/-- What the first access to the map has found. -/
def PollTrail.displaced (trail : PollTrail) : List Hold :=
  ((trail.read accesses).head?.map Prod.fst).getD []

/-- What the last access to the map has left. -/
def PollTrail.left (trail : PollTrail) : List Hold :=
  ((trail.read accesses).getLast?.map Prod.snd).getD []

/-! ### What becomes of a row -/

/-- What becomes of a row. -/
inductive Fate where
  /-- Its result was emitted. -/
  | emitted
  /-- It was handed to the request channel. -/
  | handed
  /-- It is given back with `Undispatch`. -/
  | undispatched
  /-- It is given back with `Defer`. -/
  | deferred
deriving DecidableEq

/-- The part of a run that deals with a row. -/
structure RowPart where
  row : SqlQueue.Request
  gated : Option ℕ
  fate : Fate
  trail : PollTrail

/-- The actions that settle rows. -/
def Action.Settling : Action → Bool
  | .receive _ => true
  | .gate _ => true
  | .emit _ => true
  | .sendRequest _ => true
  | .swapReleases .. => true
  | .takeReleases _ => true
  | _ => false

/-- The stamp by which `resultWorker` completes a row. -/
def ResultMessage.stamp (result : ResultMessage) : Stamp :=
  ⟨⟨result.id, result.routing.requestToken⟩, result.routing.dispatchAttempt⟩

/-- What the actions for a row name is the row.  A result that the gate has given to the row may
have an id of its own. -/
def Action.Names (row : SqlQueue.Request) (own : List String) : Action → Prop
  | .emit result => result.stamp = row.stamp ∨
      result.id ∈ own ∧ result.routing.requestToken = row.key.token ∧
        result.routing.dispatchAttempt = row.attempt
  | .sendRequest ir => ir.stamp = row.stamp
  | .swapReleases stamp _ => stamp = row.stamp
  | .takeReleases stamp => stamp = row.stamp
  | _ => True

namespace RowPart

variable (p : RowPart)

/-- The release functions of a row that is not handed over are run once: by the poll, or by another
goroutine that has taken them out of the map before the poll could do it. -/
def Ran : Prop :=
  (p.trail.read ran).Perm (p.trail.displaced ++ p.trail.read produced) ∨
    ∃ (s : Shelf) (found : List Hold), (s, ⟨.takeReleases p.row.stamp, found⟩) ∈ p.trail ∧
      (s p.row.stamp).taken.head? = some (p.trail.read produced) ∧
      (p.trail.read ran).Perm (p.trail.displaced ++ found)

/-- The row is settled once, and the release functions that its gate has produced are stored under
its stamp or run once.  Besides, the poll runs what it displaces from the map. -/
structure Settled : Prop where
  emitted : (p.trail.read emitted).length = if p.fate = .emitted then 1 else 0
  handed : (p.trail.read handed).length = if p.fate = .handed then 1 else 0
  acts : ∀ e ∈ p.trail, e.2.1.Settling ∧ e.2.1.Names p.row (p.trail.read ownResults)
  received : p.trail.read received = p.gated.toList
  stored : p.trail.left = if p.fate = .handed then p.trail.read produced else []
  displaced : p.fate = .handed → (p.trail.read SqlFlow.ran).Perm p.trail.displaced
  ran : p.fate ≠ .handed → p.Ran

end RowPart

/-- A run of `processQueue` that ends with the map `s'` settles each row that it has polled in a
part of its own. -/
structure Settles (trail : PollTrail) (s' : Shelf) (parts : List RowPart) : Prop where
  rows : parts.map RowPart.row = trail.read polled
  settled : ∀ p ∈ parts, p.Settled
  split : ∃ pre post, trail = pre ++ parts.flatMap RowPart.trail ++ post ∧
    ∀ e ∈ pre ++ post, e.2.1.Settling = false
  channels : ∀ (i : ℕ) (p : RowPart), parts[i]? = some p → p.gated = none ∨ p.gated = some i
  spawned : trail.read spawned = parts.filterMap fun p => p.gated.map fun i => (i, p.row.stamp)
  undispatched : trail.read undispatched =
    (parts.filter fun p => p.fate = .undispatched).map fun p => p.row.stamp
  deferred : trail.read deferred =
    (parts.filter fun p => p.fate = .deferred).map fun p => p.row.stamp
  stored : ((trail.read polled).map SqlQueue.Request.stamp).Nodup → ∀ p ∈ parts,
    p.fate = .handed → p.trail.read produced ≠ [] →
      s'.Traces p.row.stamp (p.trail.read produced)

/-! ### The map -/

namespace Shelf

variable {s s₁ s' : Shelf} {stamp : Stamp} {releases : List Hold}

lemma Later.refl (s : Shelf) : s.Later s := fun _ => prefix_rfl

lemma Later.trans (h : s.Later s₁) (h' : s₁.Later s') : s.Later s' :=
  fun stamp => (h stamp).trans (h' stamp)

lemma Traces.later (h : s.Traces stamp releases) (hlater : s.Later s') :
    s'.Traces stamp releases := h.trans (hlater stamp)

lemma traces_update (h : Later (Function.update s stamp ⟨releases, []⟩) s') :
    s'.Traces stamp releases := by
  refine Traces.later ?_ h
  rw [Traces, update_self]
  exact prefix_rfl

lemma Traces.cases (h : s.Traces stamp releases) :
    (s stamp).held = releases ∨ (s stamp).taken.head? = some releases := by
  obtain ⟨rest, hline⟩ := h
  rw [Entry.line] at hline
  cases htaken : (s stamp).taken with
  | nil =>
    rw [htaken] at hline
    exact .inl (cons.inj hline).1.symm
  | cons first others =>
    rw [htaken] at hline
    exact .inr (congrArg some (cons.inj hline).1.symm)

/-- Access to other entries of the map only. -/
def Spares (stamp : Stamp) : Action → Prop
  | .swapReleases stamp' _ => stamp' ≠ stamp
  | .takeReleases stamp' => stamp' ≠ stamp
  | _ => True

lemma Traces.moves (a : Action) (ha : Spares stamp a) (s : Shelf) (r : a.Reply) (s' : Shelf)
    (h : s.Traces stamp releases) (hmoves : Moves a s r s') : s'.Traces stamp releases := by
  cases a with
  | swapReleases stamp' releases' | takeReleases stamp' =>
    refine Traces.later ?_ hmoves.2
    rwa [Traces, update_of_ne (Ne.symm ha)]
  | _ => exact h.later hmoves

end Shelf

lemma Action.Names.spares {row : SqlQueue.Request} {stamp : Stamp} (hne : row.stamp ≠ stamp)
    {own : List String} {a : Action} (h : a.Names row own) : Shelf.Spares stamp a := by
  cases a with
  | swapReleases stamp' releases | takeReleases stamp' =>
    exact fun heq => hne ((h : stamp' = row.stamp).symm.trans heq)
  | _ => exact trivial

/-! ### Trails -/

namespace PollTrail

variable {β : Type} (f : Sigma Action.Reply → List β) (trail trail' : PollTrail)

@[simp] lemma read_nil : read [] f = [] := rfl

@[simp] lemma read_cons (e : Shelf × Sigma Action.Reply) :
    read (e :: trail) f = f e.2 ++ trail.read f := flatMap_cons

@[simp] lemma read_append : read (trail ++ trail') f = trail.read f ++ trail'.read f :=
  flatMap_append

variable {f trail}

lemma read_eq_nil {N : Action → Prop} (hf : ∀ a r, N a → f ⟨a, r⟩ = [])
    (h : ∀ e ∈ trail, N e.2.1) : trail.read f = [] :=
  flatMap_eq_nil_iff.mpr fun e he => hf e.2.1 e.2.2 (h e he)

end PollTrail

/-- A trail that runs these release functions and does nothing else. -/
structure Releasing (hs : List Hold) (trail : PollTrail) : Prop where
  ran : (trail.read ran).Perm hs
  gates : ∀ e ∈ trail, ∃ a, e.2.1 = .gate a

namespace Releasing

variable {hs : List Hold} {trail : PollTrail}

lemma read_eq_nil {β : Type} {f : Sigma Action.Reply → List β} (h : Releasing hs trail)
    (hf : ∀ a r, f ⟨.gate a, r⟩ = []) : trail.read f = [] := by
  refine PollTrail.read_eq_nil (N := fun b => ∃ a, b = .gate a) ?_ h.gates
  rintro b r ⟨a, rfl⟩
  exact hf a r

lemma reads (h : Releasing hs trail) :
    trail.read emitted = [] ∧ trail.read handed = [] ∧ trail.read received = [] ∧
      trail.read produced = [] ∧ trail.read accesses = [] ∧ trail.read ownResults = [] :=
  ⟨h.read_eq_nil fun _ _ => rfl, h.read_eq_nil fun _ _ => rfl, h.read_eq_nil fun _ _ => rfl,
    h.read_eq_nil fun _ _ => rfl, h.read_eq_nil fun _ _ => rfl, h.read_eq_nil fun _ _ => rfl⟩

lemma acts (h : Releasing hs trail) (row : SqlQueue.Request) (own : List String) :
    ∀ e ∈ trail, e.2.1.Settling ∧ e.2.1.Names row own := by
  rintro ⟨s, b, r⟩ he
  obtain ⟨a, rfl : b = .gate a⟩ := h.gates _ he
  exact ⟨rfl, trivial⟩

end Releasing

lemma exists_path_of_trail {α : Type} {p : FlowControl.GateCode α} {s s' : Shelf}
    {trail : PollTrail} {a : α} (h : (ofGate p).Trail Shelf.Moves s trail a s') :
    ∃ tr, p.Path tr a ∧ (trail.read ran : Multiset Hold) = FlowControl.released tr := by
  induction p generalizing s trail with
  | done b =>
    cases h
    exact ⟨[], .done a, rfl⟩
  | act i k ih =>
    cases h with
    | @act _ _ _ _ _ r _ _ hstep h =>
      obtain ⟨tr, hpath, hran⟩ := ih r h
      refine ⟨⟨i, r⟩ :: tr, @Prog.Path.act _ GateAction.Reply _ i k r tr a hpath, ?_⟩
      rw [PollTrail.read_cons, ← Multiset.coe_add, hran]
      cases hi : i.returned <;> simp [FlowControl.released, ran, hi]

lemma ensures_releaseGateReleases (hs : List Hold) (s : Shelf) :
    (releaseGateReleases hs).Ensures Shelf.Moves
      (fun _ trail s' => Releasing hs trail ∧ s.Later s') s := by
  intro trail u s' htrail
  obtain ⟨tr, hpath, hran⟩ := exists_path_of_trail htrail
  have hgates : (releaseGateReleases hs).Always fun a => ∃ g, a = .gate g :=
    Prog.always_embed (fun g => ⟨g, rfl⟩) _
  have hlater : ∀ a : Action, (∃ g, a = .gate g) → ∀ (s₁ : Shelf) (r : a.Reply) (s₂ : Shelf),
      s.Later s₁ → Shelf.Moves a s₁ r s₂ → s.Later s₂ := by
    rintro _ ⟨g, rfl⟩ s₁ r s₂ h hmoves
    exact h.trans hmoves
  obtain ⟨hs', hacts⟩ := Prog.Ensures.of_always hlater hgates (.refl s) trail u s' htrail
  refine ⟨⟨?_, hacts⟩, hs'⟩
  rw [(FlowControl.releaseAll_path hpath).1] at hran
  exact (Multiset.coe_eq_coe.mp hran).trans hs.reverse_perm

/-! ### The part of a row -/

/-- What a row adds to what is given back. -/
def RowPart.giveBack (back : PollReturns) (p : RowPart) : PollReturns :=
  match p.fate with
  | .undispatched => back.addNow p.row.stamp
  | .deferred => back.addLater p.row.stamp
  | _ => back

/-- The trail settles the row and ends with these rows to give back and this map. -/
def Handles (row : SqlQueue.Request) (gated : Option ℕ) (back back' : PollReturns)
    (trail : PollTrail) (s' : Shelf) : Prop :=
  ∃ fate, RowPart.Settled ⟨row, gated, fate, trail⟩ ∧
    back' = RowPart.giveBack back ⟨row, gated, fate, trail⟩ ∧
    (fate = .handed → trail.read produced ≠ [] → s'.Traces row.stamp (trail.read produced))

/-- The trail that waits for the outcome of the gate, if the row has reached the gate. -/
inductive Receipt : Option ℕ → List Hold → PollTrail → Prop
  | none : Receipt none [] []
  | some (s : Shelf) (i : ℕ) (out : GateReturn) :
    Receipt (some i) out.releases [(s, ⟨.receive i, out⟩)]

namespace Receipt

variable {gated : Option ℕ} {hs : List Hold} {head : PollTrail}

lemma reads (h : Receipt gated hs head) :
    head.read emitted = [] ∧ head.read handed = [] ∧ head.read received = gated.toList ∧
      head.read produced = hs ∧ head.read accesses = [] ∧ head.read ran = [] := by
  cases h with
  | none => exact ⟨rfl, rfl, rfl, rfl, rfl, rfl⟩
  | some s i out => exact ⟨rfl, rfl, rfl, append_nil _, rfl, rfl⟩

lemma acts (h : Receipt gated hs head) (row : SqlQueue.Request) (own : List String) :
    ∀ e ∈ head, e.2.1.Settling ∧ e.2.1.Names row own := by
  cases h with
  | none => exact forall_mem_nil _
  | some s i out =>
    rintro e he
    rw [mem_singleton.mp he]
    exact ⟨rfl, trivial⟩

end Receipt

section Handles

variable {row : SqlQueue.Request} {gated : Option ℕ} {hs : List Hold} {head rel : PollTrail}
  {back : PollReturns} {s' : Shelf}

attribute [local simp] emitted handed received produced ownResults ran accesses
  PollTrail.displaced PollTrail.left

lemma settled_released (hhead : Receipt gated hs head) (hrel : Releasing hs rel) {fate : Fate}
    (hfate : fate = .undispatched ∨ fate = .deferred) :
    RowPart.Settled ⟨row, gated, fate, head ++ rel⟩ := by
  have hemitted : fate ≠ .emitted := by
    rintro rfl
    simp at hfate
  have hhanded : fate ≠ .handed := by
    rintro rfl
    simp at hfate
  refine ⟨?_, ?_, ?_, ?_, ?_, fun h => absurd h hhanded, fun _ => .inl ?_⟩
  · simp [hhead.reads, hrel.reads, hemitted]
  · simp [hhead.reads, hrel.reads, hhanded]
  · exact forall_mem_append.mpr ⟨hhead.acts row _, hrel.acts row _⟩
  · simp [hhead.reads, hrel.reads]
  · simp [hhead.reads, hrel.reads, hhanded]
  · simpa [hhead.reads, hrel.reads] using hrel.ran

lemma handles_emit (hhead : Receipt gated hs head) (hrel : Releasing hs rel) (s₁ : Shelf)
    {result : ResultMessage} (hresult : (Action.emit result).Names row (head.read ownResults))
    (sent : Bool) : Handles row gated back (if sent then back else back.addNow row.stamp)
      (head ++ (rel ++ [(s₁, ⟨.emit result, sent⟩)])) s' := by
  have hacts : ∀ e ∈ head ++ (rel ++ [(s₁, (⟨.emit result, sent⟩ : Sigma Action.Reply))]),
      e.2.1.Settling ∧ e.2.1.Names row (PollTrail.read (head ++ (rel ++ [(s₁,
        (⟨.emit result, sent⟩ : Sigma Action.Reply))])) ownResults) := by
    have hown : PollTrail.read (head ++ (rel ++ [(s₁, (⟨.emit result, sent⟩ :
        Sigma Action.Reply))])) ownResults = head.read ownResults := by
      simp [hrel.reads]
    rw [hown]
    simp only [forall_mem_append]
    refine ⟨hhead.acts row _, hrel.acts row _, fun e he => ?_⟩
    rw [mem_singleton.mp he]
    exact ⟨rfl, hresult⟩
  refine ⟨if sent then .emitted else .undispatched,
    ⟨?_, ?_, hacts, ?_, ?_, fun h => ?_, fun _ => ?_⟩, ?_, fun h => ?_⟩
  · cases sent <;> simp [hhead.reads, hrel.reads]
  · cases sent <;> simp [hhead.reads, hrel.reads]
  · simp [hhead.reads, hrel.reads]
  · cases sent <;> simp [hhead.reads, hrel.reads]
  · cases sent <;> cases h
  · left
    simpa [hhead.reads, hrel.reads] using hrel.ran
  · cases sent <;> rfl
  · cases sent <;> cases h

/-- The trail that stores the release functions under the stamp of the row, if there are any. -/
inductive Shelving (row : SqlQueue.Request) : List Hold → PollTrail → Shelf → Prop
  | nothing (s₁ : Shelf) : Shelving row [] [] s₁
  | swap {releases : List Hold} {s s₁ : Shelf} {prev : List Hold} {rel : PollTrail}
    (hrel : Releasing prev rel) (hs₁ : s₁.Traces row.stamp releases) :
    Shelving row releases ((s, ⟨.swapReleases row.stamp releases, prev⟩) :: rel) s₁

lemma handles_handed {t : PollTrail} {s₁ : Shelf} (hhead : Receipt gated hs head)
    (ht : Shelving row hs t s₁) {ir : InternalRequest} (hir : ir.stamp = row.stamp)
    (hs' : s₁.Later s') :
    Handles row gated back back (head ++ (t ++ [(s₁, ⟨.sendRequest ir, true⟩)])) s' := by
  have hsend (own : List String) : ∀ e ∈ [(s₁, (⟨.sendRequest ir, true⟩ : Sigma Action.Reply))],
      e.2.1.Settling ∧ e.2.1.Names row own := by
    intro e he
    rw [mem_singleton.mp he]
    exact ⟨rfl, hir⟩
  cases ht with
  | nothing =>
    refine ⟨.handed, ⟨?_, ?_, ?_, ?_, ?_, fun _ => ?_, fun h => absurd rfl h⟩, rfl, fun _ h => ?_⟩
    · simp [hhead.reads]
    · simp [hhead.reads]
    · exact forall_mem_append.mpr ⟨hhead.acts row _, hsend _⟩
    · simp [hhead.reads]
    · simp [hhead.reads]
    · simp [hhead.reads]
    · simp [hhead.reads] at h
  | @swap _ s _ prev rel hrel hs₁ =>
    have hproduced : PollTrail.read (head ++ ((s, ⟨.swapReleases row.stamp hs, prev⟩) :: rel ++
        [(s₁, ⟨.sendRequest ir, true⟩)])) produced = hs := by
      simp [hhead.reads, hrel.reads]
    refine ⟨.handed, ⟨?_, ?_, ?_, ?_, ?_, fun _ => ?_, fun h => absurd rfl h⟩, rfl, fun _ _ => ?_⟩
    · simp [hhead.reads, hrel.reads]
    · simp [hhead.reads, hrel.reads]
    · simp only [cons_append, forall_mem_append, forall_mem_cons]
      exact ⟨hhead.acts row _, ⟨rfl, rfl⟩, hrel.acts row _, forall_mem_cons.mp (hsend _)⟩
    · simp [hhead.reads, hrel.reads]
    · rw [hproduced]
      simp [hhead.reads, hrel.reads]
    · simpa [hhead.reads, hrel.reads] using hrel.ran
    · rw [hproduced]
      exact hs₁.later hs'

lemma handles_unsent {t : PollTrail} {s₁ s₂ : Shelf} (hhead : Receipt gated hs head)
    (ht : Shelving row hs t s₁) {ir : InternalRequest} (hir : ir.stamp = row.stamp)
    (hs₂ : s₁.Later s₂) (hrel : Releasing (s₂ row.stamp).held rel) :
    Handles row gated back (back.addNow row.stamp) (head ++ (t ++ (s₁, ⟨.sendRequest ir, false⟩) ::
        (s₂, ⟨.takeReleases row.stamp, (s₂ row.stamp).held⟩) :: rel)) s' := by
  cases ht with
  | nothing =>
    refine ⟨.undispatched, ⟨?_, ?_, ?_, ?_, ?_, nofun, fun _ => .inl ?_⟩, rfl, nofun⟩
    · simp [hhead.reads, hrel.reads]
    · simp [hhead.reads, hrel.reads]
    · simp only [nil_append, forall_mem_append, forall_mem_cons]
      exact ⟨hhead.acts row _, ⟨rfl, hir⟩, ⟨rfl, rfl⟩, hrel.acts row _⟩
    · simp [hhead.reads, hrel.reads]
    · simp [hhead.reads, hrel.reads]
    · simpa [hhead.reads, hrel.reads] using hrel.ran
  | @swap _ s _ prev rel₁ hrel₁ hs₁ =>
    refine ⟨.undispatched, ⟨?_, ?_, ?_, ?_, ?_, nofun, fun _ => ?_⟩, rfl, nofun⟩
    · simp [hhead.reads, hrel.reads, hrel₁.reads]
    · simp [hhead.reads, hrel.reads, hrel₁.reads]
    · simp only [cons_append, forall_mem_append, forall_mem_cons]
      exact ⟨hhead.acts row _, ⟨rfl, rfl⟩, hrel₁.acts row _, ⟨rfl, hir⟩, ⟨rfl, rfl⟩,
        hrel.acts row _⟩
    · simp [hhead.reads, hrel.reads, hrel₁.reads]
    · simp [hhead.reads, hrel.reads, hrel₁.reads]
    · have hran := hrel₁.ran.append hrel.ran
      have hproduced : PollTrail.read (head ++ ((s, ⟨.swapReleases row.stamp hs, prev⟩) :: rel₁ ++
          (s₁, ⟨.sendRequest ir, false⟩) ::
          (s₂, ⟨.takeReleases row.stamp, (s₂ row.stamp).held⟩) :: rel)) produced = hs := by
        simp [hhead.reads, hrel.reads, hrel₁.reads]
      have hdisplaced : PollTrail.displaced (head ++ ((s, ⟨.swapReleases row.stamp hs, prev⟩) ::
          rel₁ ++ (s₁, ⟨.sendRequest ir, false⟩) ::
          (s₂, ⟨.takeReleases row.stamp, (s₂ row.stamp).held⟩) :: rel)) = prev := by
        simp [hhead.reads, hrel₁.reads]
      -- The list is still there, or another goroutine has taken it out since the poll stored it.
      rcases (hs₁.later hs₂).cases with hheld | htaken
      · left
        rw [hproduced, hdisplaced, ← hheld]
        simpa [hhead.reads] using hran
      · right
        refine ⟨s₂, (s₂ row.stamp).held, by simp, htaken.trans (congrArg some hproduced.symm), ?_⟩
        rw [hdisplaced]
        simpa [hhead.reads] using hran

end Handles

/-! ### One row -/

section Row

variable {row : SqlQueue.Request} {gated : Option ℕ} {hs : List Hold} {head rel : PollTrail}

lemma ensures_emit (hhead : Receipt gated hs head) (hrel : Releasing hs rel)
    {result : ResultMessage} (hresult : (Action.emit result).Names row (head.read ownResults))
    (back : PollReturns) (s : Shelf) :
    (emit row result back).Ensures Shelf.Moves (fun out trail s' =>
      Handles row gated back out.2 (head ++ (rel ++ trail)) s') s := by
  refine .step fun sent s' _ => .pure ?_
  have h : Handles row gated back _ _ s' := handles_emit hhead hrel s hresult sent
  cases sent <;> exact h

lemma ensures_trackGateReleases (releases : List Hold) (s : Shelf) :
    (if releases = [] then pure () else trackGateReleases row.stamp releases : Code Unit).Ensures
      Shelf.Moves (fun _ trail s' => Shelving row releases trail s') s := by
  split
  · next hnil =>
    subst hnil
    exact .pure (.nothing s)
  · refine .step fun prev s₁ hmoves => (ensures_releaseGateReleases prev s₁).weaken ?_
    rintro u rel s' ⟨hrel, hlater⟩
    exact .swap hrel ((Shelf.traces_update hmoves.2).later hlater)

lemma ensures_admitRow (hhead : Receipt gated hs head) {ir : InternalRequest}
    (hir : ir.stamp = row.stamp) (back : PollReturns) (s : Shelf) :
    (admitRow row ir hs back).Ensures Shelf.Moves (fun out trail s' =>
      Handles row gated back out.2 (head ++ trail) s') s := by
  unfold admitRow
  rw [hir]
  refine .bind ((ensures_trackGateReleases hs s).weaken ?_)
  intro u t s₁ ht
  refine .step fun sent s₂ hs₂ => ?_
  cases sent with
  | true => exact .pure (handles_handed hhead ht hir hs₂)
  | false =>
    refine .bind (.step fun found s₃ hfound => (ensures_releaseGateReleases found s₃).weaken ?_)
    rintro u rel s₄ ⟨hrel, -⟩
    obtain rfl : found = (s₂ row.stamp).held := hfound.1
    refine .pure ?_
    have h : Handles row gated back _ _ s₄ := handles_unsent hhead ht hir hs₂ hrel
    simpa using h

lemma names_droppedResult {ir : InternalRequest} (hir : ir.stamp = row.stamp) {v : Verdict}
    {own : List String} (hown : ∀ d ∈ v.result, d.id ∈ own) :
    (Action.emit (droppedResult ir v)).Names row own := by
  unfold droppedResult
  split
  next d hd =>
    exact .inr ⟨hown d hd, congrArg (fun stamp => stamp.key.token) hir, congrArg Stamp.attempt hir⟩
  · exact .inl hir

lemma ensures_dispatchGated {ir : InternalRequest} (hir : ir.stamp = row.stamp) (out : GateReturn)
    (hhead : Receipt gated out.releases head)
    (hown : ∀ v, out.verdict = .ok v → ∀ d ∈ v.result, d.id ∈ head.read ownResults)
    (back : PollReturns) (s : Shelf) :
    (dispatchGated row ir out back).Ensures Shelf.Moves (fun out trail s' =>
      Handles row gated back out.2 (head ++ trail) s') s := by
  have hrefused : (do
      releaseGateReleases out.releases
      pure (true, back.addLater row.stamp) : Code (Bool × PollReturns)).Ensures Shelf.Moves
        (fun out trail s' => Handles row gated back out.2 (head ++ trail) s') s := by
    refine .bind ((ensures_releaseGateReleases out.releases s).weaken ?_)
    rintro u rel s' ⟨hrel, -⟩
    refine .pure ?_
    rw [append_nil]
    exact ⟨.deferred, settled_released hhead hrel (.inr rfl), rfl, nofun⟩
  unfold dispatchGated
  split
  · exact hrefused
  · next v hv =>
    split
    · exact hrefused
    · refine .bind ((ensures_releaseGateReleases out.releases s).weaken ?_)
      rintro u rel s₁ ⟨hrel, -⟩
      have hrelabel : (ir.relabel out.req).stamp = row.stamp := hir
      exact ensures_emit hhead hrel (names_droppedResult hrelabel (hown v hv)) back s₁
    · have hrelabel : (ir.relabel out.req).stamp = row.stamp := hir
      exact ensures_admitRow hhead hrelabel back s

end Row

/-- An entry names its row, and only requests that are neither expired nor unparsable reach the
gate. -/
structure Polled.Sound (e : Polled) : Prop where
  stamp : ∀ ir ∈ e.ir, ir.stamp = e.row.stamp
  gated : e.gated ≠ none → e.ir ≠ none ∧ e.expired = false

lemma releasing_nil : Releasing [] [] := ⟨.refl _, forall_mem_nil _⟩

lemma ensures_dispatchPolled (cfg : QueueConfig) {e : Polled} (he : e.Sound) (back : PollReturns)
    (s : Shelf) :
    (dispatchPolled cfg e back).Ensures Shelf.Moves (fun out trail s' =>
      Handles e.row e.gated back out.2 trail s') s := by
  have hemit : ∀ result : ResultMessage, result.stamp = e.row.stamp → e.gated = none →
      (emit e.row result back).Ensures Shelf.Moves (fun out trail s' =>
        Handles e.row e.gated back out.2 trail s') s := by
    intro result hresult hgated
    rw [hgated]
    exact ensures_emit .none releasing_nil (.inl hresult) back s
  unfold dispatchPolled
  split
  · next hir =>
    exact hemit _ rfl (by_contra fun hgated => (he.gated hgated).1 hir)
  · next ir hir =>
    have hstamp := he.stamp ir hir
    split
    · next hexpired =>
      refine hemit _ hstamp (by_contra fun hgated => ?_)
      rw [(he.gated hgated).2] at hexpired
      exact Bool.false_ne_true hexpired
    · split
      · next hgated => exact hemit _ hstamp hgated
      · next i hgated =>
        rw [hgated]
        refine .step fun out s₁ _ => ?_
        refine ensures_dispatchGated hstamp out (.some s i out) (fun v hv d hd => ?_) back s₁
        simpa [ownResults, hv] using ⟨d, hd, rfl⟩

/-! ### All rows -/

/-- The parts settle these entries one after the other. -/
structure Covers (es : List Polled) (back back' : PollReturns) (trail : PollTrail) (s' : Shelf)
    (parts : List RowPart) : Prop where
  trail : trail = parts.flatMap RowPart.trail
  entries : parts.map (fun p => (p.row, p.gated)) = es.map fun e => (e.row, e.gated)
  settled : ∀ p ∈ parts, p.Settled
  returns : back' = parts.foldl RowPart.giveBack back
  stored : (es.map fun e => e.row.stamp).Nodup → ∀ p ∈ parts, p.fate = .handed →
    p.trail.read produced ≠ [] → s'.Traces p.row.stamp (p.trail.read produced)

namespace Covers

lemma nil (back : PollReturns) (s' : Shelf) : Covers [] back back [] s' [] :=
  ⟨rfl, rfl, forall_mem_nil _, rfl, fun _ => forall_mem_nil _⟩

variable {es : List Polled} {back back₁ back' : PollReturns} {t t' : PollTrail} {s₁ s' : Shelf}
  {parts : List RowPart}

lemma rows (h : Covers es back back' t s' parts) : parts.map RowPart.row = es.map Polled.row := by
  have hfst := congrArg (map Prod.fst) h.entries
  rwa [map_map, map_map] at hfst

lemma cons {α : Type} {p : Code α} {a : α} {e : Polled}
    (he : Handles e.row e.gated back back₁ t s₁) (h : Covers es back₁ back' t' s' parts)
    (htrail : p.Trail Shelf.Moves s₁ t' a s') :
    ∃ parts, Covers (e :: es) back back' (t ++ t') s' parts := by
  obtain ⟨fate, hsettled, rfl, hstored⟩ := he
  refine ⟨⟨e.row, e.gated, fate, t⟩ :: parts, ?_, ?_, ?_, h.returns, ?_⟩
  · rw [flatMap_cons, ← h.trail]
  · rw [map_cons, map_cons, h.entries]
  · exact forall_mem_cons.mpr ⟨hsettled, h.settled⟩
  · intro hnodup
    obtain ⟨hnotMem, hnodup⟩ := nodup_cons.mp hnodup
    refine forall_mem_cons.mpr ⟨fun hfate hne => ?_, h.stored hnodup⟩
    refine htrail.keeps Shelf.Traces.moves ?_ (hstored hfate hne)
    intro entry hentry
    rw [h.trail] at hentry
    obtain ⟨p, hp, hentry⟩ := mem_flatMap.mp hentry
    refine Action.Names.spares ?_ ((h.settled p hp).acts entry hentry).2
    intro heq
    apply hnotMem
    have hrow : p.row ∈ es.map Polled.row := h.rows ▸ mem_map_of_mem hp
    obtain ⟨e', he', hrow'⟩ := mem_map.mp hrow
    exact mem_map.mpr ⟨e', he', (congrArg SqlQueue.Request.stamp hrow').trans heq⟩

end Covers

lemma ensures_abandonRest (es : List Polled) (back : PollReturns) (s : Shelf) :
    (abandonRest es back).Ensures Shelf.Moves (fun back' trail s' =>
      ∃ parts, Covers es back back' trail s' parts) s := by
  induction es generalizing back s with
  | nil => exact .pure ⟨[], .nil back s⟩
  | cons e es ih =>
    refine .bind (.weaken (P := fun _ trail s' =>
      Handles e.row e.gated back (back.addNow e.row.stamp) trail s') ?_ ?_)
    · split
      · next hgated =>
        rw [hgated]
        refine .pure ⟨.undispatched, ?_, rfl, by rintro ⟨⟩⟩
        exact settled_released .none releasing_nil (.inl rfl)
      · next i hgated =>
        rw [hgated]
        refine .step fun out s₁ _ => (ensures_releaseGateReleases out.releases s₁).weaken ?_
        rintro u rel s' ⟨hrel, -⟩
        exact ⟨.undispatched, settled_released (.some s i out) hrel (.inl rfl), rfl, by rintro ⟨⟩⟩
    · intro u t s₁ he t' back' s' htrail
      obtain ⟨parts, hparts⟩ := ih (back.addNow e.row.stamp) s₁ t' back' s' htrail
      exact hparts.cons he htrail

lemma ensures_dispatchAll (cfg : QueueConfig) {es : List Polled} (hes : ∀ e ∈ es, e.Sound)
    (back : PollReturns) (s : Shelf) :
    (dispatchAll cfg es back).Ensures Shelf.Moves (fun back' trail s' =>
      ∃ parts, Covers es back back' trail s' parts) s := by
  induction es generalizing back s with
  | nil => exact .pure ⟨[], .nil back s⟩
  | cons e es ih =>
    obtain ⟨he, hes⟩ := forall_mem_cons.mp hes
    refine .bind ((ensures_dispatchPolled cfg he back s).weaken ?_)
    rintro ⟨more, back₁⟩ t s₁ hrow t' back' s' htrail
    have hrest : ∃ parts, Covers es back₁ back' t' s' parts := by
      cases more with
      | true => exact ih hes back₁ s₁ t' back' s' htrail
      | false => exact ensures_abandonRest es back₁ s₁ t' back' s' htrail
    obtain ⟨parts, hparts⟩ := hrest
    exact hparts.cons hrow htrail

/-! ### The poll -/

lemma foldl_giveBack (parts : List RowPart) (back : PollReturns) :
    parts.foldl RowPart.giveBack back =
      ⟨back.now ++ (parts.filter fun p => p.fate = .undispatched).map fun p => p.row.stamp,
        back.later ++ (parts.filter fun p => p.fate = .deferred).map fun p => p.row.stamp⟩ := by
  induction parts generalizing back with
  | nil => simp
  | cons p parts ih =>
    rw [foldl_cons, ih]
    cases hfate : p.fate <;>
      simp [RowPart.giveBack, PollReturns.addNow, PollReturns.addLater, hfate]

/-- The envelope of a row that parses carries the id and the token of the row. -/
def OwnEnvelope (f : Flow) (row : SqlQueue.Request) : Prop :=
  ∀ ir, parseRequest f row = some ir →
    ir.id = row.key.id ∧ ir.routing.requestToken = row.key.token

lemma OwnEnvelope.stamp {f : Flow} {cfg : QueueConfig} {row : SqlQueue.Request}
    (h : OwnEnvelope f row) : ∀ ir ∈ rowRequest f cfg row, ir.stamp = row.stamp := by
  intro ir hir
  obtain ⟨parsed, hparsed, rfl⟩ := Option.map_eq_some_iff.mp hir
  obtain ⟨hid, htoken⟩ := h parsed hparsed
  show Stamp.mk ⟨parsed.id, parsed.routing.requestToken⟩ row.attempt = row.stamp
  rw [hid, htoken]
  rfl

/-- What the first loop leaves for the rows from row `i` on. -/
structure Started (rows : List SqlQueue.Request) (i : ℕ) (es : List Polled) (trail : PollTrail) :
    Prop where
  rows : es.map Polled.row = rows
  sound : ∀ e ∈ es, e.Sound
  spawned : trail.read spawned = es.filterMap fun e => e.gated.map fun j => (j, e.row.stamp)
  channels : ∀ (j : ℕ) (e : Polled), es[j]? = some e → e.gated = none ∨ e.gated = some (i + j)
  acts : ∀ e ∈ trail, ∃ j ir, e.2.1 = .spawn j ir

namespace Started

variable {row : SqlQueue.Request} {rows : List SqlQueue.Request} {i : ℕ} {e : Polled}
  {es : List Polled} {t t' : PollTrail}

lemma cons (he : e.row = row) (hsound : e.Sound) (hgated : e.gated = none ∨ e.gated = some i)
    (hspawned : t.read SqlFlow.spawned = (e.gated.map fun j => (j, e.row.stamp)).toList)
    (hacts : ∀ e ∈ t, ∃ j ir, e.2.1 = .spawn j ir) (h : Started rows (i + 1) es t') :
    Started (row :: rows) i (e :: es) (t ++ t') := by
  refine ⟨?_, ?_, ?_, ?_, ?_⟩
  · rw [map_cons, he, h.rows]
  · exact forall_mem_cons.mpr ⟨hsound, h.sound⟩
  · rw [PollTrail.read_append, hspawned, h.spawned, filterMap_cons]
    cases e.gated <;> rfl
  · intro j e' hj
    cases j with
    | zero =>
      obtain rfl := Option.some.inj hj
      exact hgated
    | succ j =>
      rw [Nat.add_comm j 1, ← Nat.add_assoc]
      exact h.channels j e' hj
  · exact forall_mem_append.mpr ⟨hacts, h.acts⟩

end Started

lemma ensures_startGates (f : Flow) (cfg : QueueConfig) (now : ℤ) {rows : List SqlQueue.Request}
    (hrows : ∀ row ∈ rows, OwnEnvelope f row) (i : ℕ) (s : Shelf) :
    (startGates f cfg now i rows).Ensures Shelf.Moves (fun es trail _ =>
      Started rows i es trail) s := by
  induction rows generalizing i s with
  | nil =>
    refine .pure ⟨rfl, forall_mem_nil _, rfl, fun j e he => ?_, forall_mem_nil _⟩
    simp at he
  | cons row rows ih =>
    obtain ⟨hrow, hrows⟩ := forall_mem_cons.mp hrows
    have hrest : ∀ (e : Polled) (t : PollTrail) (s₁ : Shelf), e.row = row → e.Sound →
        (e.gated = none ∨ e.gated = some i) →
        t.read spawned = (e.gated.map fun j => (j, e.row.stamp)).toList →
        (∀ entry ∈ t, ∃ j ir, entry.2.1 = .spawn j ir) →
        (do let es ← startGates f cfg now (i + 1) rows; pure (e :: es)).Ensures Shelf.Moves
          (fun es t' _ => Started (row :: rows) i es (t ++ t')) s₁ := by
      intro e t s₁ he hsound hgated hspawned hacts
      refine .bind ((ih hrows (i + 1) s₁).weaken ?_)
      intro es t' s₂ hes
      refine .pure ?_
      rw [append_nil]
      exact .cons he hsound hgated hspawned hacts hes
    rw [startGates]
    split
    · exact hrest ⟨row, none, false, none⟩ [] s rfl ⟨nofun, fun h => absurd rfl h⟩ (.inl rfl) rfl
        (forall_mem_nil _)
    · next ir hir =>
      have hstamp : ∀ ir' ∈ some ir, ir'.stamp = row.stamp := by
        rintro ir' ⟨⟩
        exact hrow.stamp ir hir
      split
      · exact hrest ⟨row, some ir, true, none⟩ [] s rfl ⟨hstamp, fun h => absurd rfl h⟩ (.inl rfl)
          rfl (forall_mem_nil _)
      · split
        · exact hrest ⟨row, some ir, false, none⟩ [] s rfl ⟨hstamp, fun h => absurd rfl h⟩
            (.inl rfl) rfl (forall_mem_nil _)
        · refine .step fun u s₁ _ => ?_
          refine hrest ⟨row, some ir, false, some i⟩ [(s, ⟨.spawn i ir, u⟩)] s₁ rfl
            ⟨hstamp, fun _ => ⟨nofun, rfl⟩⟩ (.inr rfl) ?_ ?_
          · rw [PollTrail.read_cons, PollTrail.read_nil, append_nil]
            exact congrArg (fun stamp => [(i, stamp)]) (hstamp ir rfl)
          · intro e he
            rw [mem_singleton.mp he]
            exact ⟨i, ir, rfl⟩

/-- The actions of the deferred function. -/
def Action.Returning : Action → Bool
  | .undispatch _ => true
  | .now => true
  | .defer .. => true
  | _ => false

/-- What is given back with the two calls. -/
structure GivenBack (back : PollReturns) (trail : PollTrail) (s s' : Shelf) : Prop where
  undispatched : trail.read undispatched = back.now
  deferred : trail.read deferred = back.later
  acts : ∀ e ∈ trail, e.2.1.Returning
  later : s.Later s'

lemma ensures_giveBack (f : Flow) (back : PollReturns) (s : Shelf) :
    (giveBack f back).Ensures Shelf.Moves (fun _ trail s' => GivenBack back trail s s') s := by
  have hnow : (if back.now = [] then pure () else call (.undispatch back.now) : Code Unit).Ensures
      Shelf.Moves (fun _ t s' => PollTrail.read t undispatched = back.now ∧
        PollTrail.read t deferred = [] ∧ (∀ e ∈ t, e.2.1.Returning) ∧ s.Later s') s := by
    split
    · next hnil => exact .pure ⟨hnil.symm, rfl, forall_mem_nil _, .refl s⟩
    · refine .step fun u s₁ hs₁ => .pure ⟨?_, rfl, ?_, hs₁⟩
      · exact append_nil _
      · intro e he
        rw [mem_singleton.mp he]
        rfl
  refine .bind (hnow.weaken ?_)
  rintro u t s₁ ⟨hundispatched, hdeferred, hacts, hs₁⟩
  split
  · next hnil =>
    refine .pure ?_
    rw [append_nil]
    exact ⟨hundispatched, hdeferred.trans hnil.symm, hacts, hs₁⟩
  · refine .step fun now s₂ hs₂ => .step fun u s₃ hs₃ => .pure ?_
    refine ⟨?_, ?_, ?_, (hs₁.trans hs₂).trans hs₃⟩
    · simp [hundispatched, undispatched]
    · simp [hdeferred, deferred]
    · refine forall_mem_append.mpr ⟨hacts, ?_⟩
      simp [Action.Returning]

lemma Started.read_eq_nil {rows : List SqlQueue.Request} {i : ℕ} {es : List Polled} {t : PollTrail}
    (h : Started rows i es t) {β : Type} {f : Sigma Action.Reply → List β}
    (hf : ∀ i ir r, f ⟨.spawn i ir, r⟩ = []) : t.read f = [] := by
  refine PollTrail.read_eq_nil (N := fun a => ∃ i ir, a = .spawn i ir) ?_ h.acts
  rintro a r ⟨i, ir, rfl⟩
  exact hf i ir r

lemma reads_settling (a : Action) (r : a.Reply) (h : a.Settling = true) :
    polled ⟨a, r⟩ = [] ∧ spawned ⟨a, r⟩ = [] ∧ undispatched ⟨a, r⟩ = [] ∧ deferred ⟨a, r⟩ = []:= by
  cases a with
  | poll | spawn | undispatch | defer => exact nomatch h
  | _ => exact ⟨rfl, rfl, rfl, rfl⟩

lemma reads_returning (a : Action) (r : a.Reply) (h : a.Returning = true) :
    polled ⟨a, r⟩ = [] ∧ spawned ⟨a, r⟩ = [] := by
  cases a with
  | poll | spawn => exact nomatch h
  | _ => exact ⟨rfl, rfl⟩

lemma settling_returning {a : Action} (h : a.Returning = true) : a.Settling = false := by
  cases a with
  | undispatch | now | defer => rfl
  | _ => exact nomatch h

lemma Covers.reads {es : List Polled} {back back' : PollReturns} {t : PollTrail} {s' : Shelf}
    {parts : List RowPart} (h : Covers es back back' t s' parts) : t.read polled = [] ∧
      t.read spawned = [] ∧ t.read undispatched = [] ∧ t.read deferred = [] := by
  have hacts : ∀ e ∈ t, e.2.1.Settling = true := by
    intro e he
    rw [h.trail] at he
    obtain ⟨p, hp, he⟩ := mem_flatMap.mp he
    exact ((h.settled p hp).acts e he).1
  exact ⟨PollTrail.read_eq_nil (fun a r h => (reads_settling a r h).1) hacts,
    PollTrail.read_eq_nil (fun a r h => (reads_settling a r h).2.1) hacts,
    PollTrail.read_eq_nil (fun a r h => (reads_settling a r h).2.2.1) hacts,
    PollTrail.read_eq_nil (fun a r h => (reads_settling a r h).2.2.2) hacts⟩

lemma settles_of_loops {rows : List SqlQueue.Request} {es : List Polled} {back : PollReturns}
    {t₀ t₁ t₂ t₃ : PollTrail} {s₂ s' : Shelf} {parts : List RowPart}
    (hpolled : t₀.read polled = rows) (hspawned : t₀.read spawned = [])
    (hundispatched : t₀.read undispatched = []) (hdeferred : t₀.read deferred = [])
    (hacts : ∀ e ∈ t₀, e.2.1.Settling = false) (hes : Started rows 0 es t₁)
    (hparts : Covers es ⟨[], []⟩ back t₂ s₂ parts) (hback : GivenBack back t₃ s₂ s') :
    Settles (t₀ ++ (t₁ ++ (t₂ ++ t₃))) s' parts := by
  have hrows : PollTrail.read (t₀ ++ (t₁ ++ (t₂ ++ t₃))) polled = rows := by
    simp [hpolled, hes.read_eq_nil (f := polled) fun _ _ _ => rfl,
      hparts.reads, PollTrail.read_eq_nil (fun a r h => (reads_returning a r h).1) hback.acts]
  refine ⟨?_, hparts.settled, ⟨t₀ ++ t₁, t₃, ?_, ?_⟩, ?_, ?_, ?_, ?_, ?_⟩
  · rw [hrows, hparts.rows, hes.rows]
  · rw [← hparts.trail]
    simp
  · simp only [forall_mem_append]
    refine ⟨⟨hacts, fun e he => ?_⟩, fun e he => settling_returning (hback.acts e he)⟩
    obtain ⟨i, ir, hspawn⟩ := hes.acts e he
    rw [hspawn]
    rfl
  · intro i p hp
    have hgated : (es.map fun e => (e.row, e.gated))[i]? = some (p.row, p.gated) := by
      rw [← hparts.entries, getElem?_map, hp]
      rfl
    rw [getElem?_map] at hgated
    obtain ⟨e, he, heq⟩ := Option.map_eq_some_iff.mp hgated
    have hchannel := hes.channels i e he
    rw [zero_add, show e.gated = p.gated from congrArg Prod.snd heq] at hchannel
    exact hchannel
  · have hes' : (es.filterMap fun e => e.gated.map fun j => (j, e.row.stamp)) =
        parts.filterMap fun p => p.gated.map fun j => (j, p.row.stamp) := by
      have hmap := congrArg (filterMap fun (rg : SqlQueue.Request × Option ℕ) =>
        rg.2.map fun j => (j, rg.1.stamp)) hparts.entries
      rw [filterMap_map, filterMap_map] at hmap
      exact hmap.symm
    simp [hspawned, hes.spawned, hes', hparts.reads,
      PollTrail.read_eq_nil (fun a r h => (reads_returning a r h).2) hback.acts]
  · simp [hundispatched, hes.read_eq_nil (f := undispatched) fun _ _ _ => rfl, hparts.reads,
      hback.undispatched, hparts.returns, foldl_giveBack]
  · simp [hdeferred, hes.read_eq_nil (f := deferred) fun _ _ _ => rfl, hparts.reads,
      hback.deferred, hparts.returns, foldl_giveBack]
  · intro hnodup p hp hfate hne
    rw [hrows, ← hes.rows, map_map] at hnodup
    exact (hparts.stored hnodup p hp hfate hne).later hback.later

lemma settles_nil {trail : PollTrail} {s' : Shelf} (hpolled : trail.read polled = [])
    (hspawned : trail.read spawned = []) (hundispatched : trail.read undispatched = [])
    (hdeferred : trail.read deferred = []) (hacts : ∀ e ∈ trail, e.2.1.Settling = false) :
    Settles trail s' [] :=
  ⟨hpolled.symm, forall_mem_nil _, ⟨trail, [], by simp, by simpa using hacts⟩,
    fun i p h => by simp at h, hspawned, hundispatched, hdeferred,
    fun _ => forall_mem_nil _⟩

/-- The outcomes are what the gate has returned for the requests whose goroutines were started. -/
def GateOutcomes (locals : ℕ → FlowControl.LocalGate) (gate : FlowControl.Gate)
    (trail : PollTrail) : Prop :=
  ∀ s i out, (s, ⟨.receive i, out⟩) ∈ trail → ∀ s₀ ir u, (s₀, ⟨.spawn i ir, u⟩) ∈ trail →
    ∃ tr, (gate.apply locals ir.gateRequest []).Path tr out

lemma exists_of_mem_ownResults {e : Sigma Action.Reply} {id : String} (h : id ∈ ownResults e) :
    ∃ i out v, e = ⟨.receive i, out⟩ ∧ out.verdict = .ok v ∧ ∃ d ∈ v.result, d.id = id := by
  obtain ⟨a, out⟩ := e
  cases a with
  | receive i =>
    simp only [ownResults] at h
    split at h
    next v hv =>
      obtain ⟨d, hd, rfl⟩ := mem_map.mp h
      exact ⟨i, out, v, rfl, hv, d, Option.mem_toList.mp hd, rfl⟩
    · exact absurd h not_mem_nil
  | _ => exact absurd h not_mem_nil

/-- A gate drops a request with a result for this request, so the result completes the row. -/
lemma Settles.stamp_of_emit {trail : PollTrail} {s' : Shelf} {parts : List RowPart}
    (h : Settles trail s' parts) {locals : ℕ → FlowControl.LocalGate} {gate : FlowControl.Gate}
    (hgates : GateOutcomes locals gate trail) {p : RowPart} (hp : p ∈ parts)
    {e : Shelf × Sigma Action.Reply} (he : e ∈ p.trail) {result : ResultMessage}
    (hresult : e.2.1 = .emit result) : result.stamp = p.row.stamp := by
  obtain ⟨pre, post, htrail, -⟩ := h.split
  have hsub : ∀ e ∈ p.trail, e ∈ trail := by
    intro e he
    rw [htrail]
    exact mem_append_left _ (mem_append_right _ (mem_flatMap.mpr ⟨p, hp, he⟩))
  have hnames := ((h.settled p hp).acts e he).2
  rw [hresult] at hnames
  rcases hnames with hstamp | ⟨hown, htoken, hattempt⟩
  · exact hstamp
  obtain ⟨e', he', hid⟩ := mem_flatMap.mp hown
  obtain ⟨i, out, v, hreceive, hv, d, hd, hid⟩ := exists_of_mem_ownResults hid
  -- The outcome came on the channel of the goroutine that was started for the row.
  have hgated : p.gated = some i := by
    have hmem : i ∈ p.trail.read received :=
      mem_flatMap.mpr ⟨e', he', by rw [hreceive]; exact mem_cons_self⟩
    rw [(h.settled p hp).received] at hmem
    exact Option.mem_toList.mp hmem
  have hspawned : (i, p.row.stamp) ∈ trail.read SqlFlow.spawned := by
    rw [h.spawned]
    exact mem_filterMap.mpr ⟨p, hp, by rw [hgated]; rfl⟩
  obtain ⟨⟨s₀, a, u⟩, hspawn, hstamp⟩ := mem_flatMap.mp hspawned
  cases a with
  | spawn j ir =>
    obtain ⟨rfl, hrowStamp⟩ := Prod.mk.inj (mem_singleton.mp hstamp)
    have hout : (e'.1, ⟨.receive i, out⟩) ∈ trail := by
      rw [← hreceive]
      exact hsub e' he'
    obtain ⟨tr, hpath⟩ := hgates e'.1 i out hout s₀ ir u hspawn
    have habout := (gate.apply_about locals ir.gateRequest []).path hpath
    have hrow : result.id = p.row.key.id := by
      rw [← hid, habout.result v hv d hd]
      exact congrArg (fun stamp => stamp.key.id) hrowStamp.symm
    simp only [ResultMessage.stamp, hrow, htoken, hattempt]
    rfl
  | _ => exact absurd hstamp not_mem_nil

/-- Every row that a run of `processQueue` polls is settled once, whatever the gates decide and
wherever the context ends, and what the gates have produced for it is stored under its stamp, if it
was handed to the request channel, or else run once.  The results that are emitted for a row
complete this row. -/
theorem processQueue_settles (f : Flow) (cfg : QueueConfig) (s s' : Shelf) (trail : PollTrail)
    (htrail : (processQueue f cfg).Trail Shelf.Moves s trail () s')
    (hrows : ∀ row ∈ trail.read polled, OwnEnvelope f row) :
    ∃ parts, Settles trail s' parts ∧ ∀ locals gate, GateOutcomes locals gate trail →
      ∀ p ∈ parts, ∀ e ∈ p.trail, ∀ result, e.2.1 = .emit result →
        result.stamp = p.row.stamp := by
  have hensures : (processQueue f cfg).Ensures Shelf.Moves (fun _ trail s' =>
      (∀ row ∈ PollTrail.read trail polled, OwnEnvelope f row) →
        ∃ parts, Settles trail s' parts) s := by
    refine .step fun budget s₁ _ => ?_
    dsimp only
    split
    · exact .step fun pending s₂ _ => .pure fun _ =>
        ⟨[], settles_nil rfl rfl rfl rfl (by simp [Action.Settling])⟩
    · refine .step fun now s₂ _ => .step fun rows s₃ _ => ?_
      cases rows with
      | none =>
        exact .pure fun _ => ⟨[], settles_nil rfl rfl rfl rfl (by simp [Action.Settling])⟩
      | some rows =>
        intro rest u s' hrest hown
        have hrows : ∀ row ∈ rows, OwnEnvelope f row := by
          intro row hrow
          exact hown row (by simp [polled, hrow])
        refine (Prog.Ensures.step fun now s₄ _ => ?_ : Prog.Ensures _ _ (fun _ rest s' =>
          ∃ parts, Settles (_ :: _ :: _ :: rest) s' parts) s₃) rest u s' hrest
        refine .bind ((ensures_startGates f cfg _ hrows 0 s₄).weaken ?_)
        intro es t₁ s₅ hes
        refine .bind ((ensures_dispatchAll cfg hes.sound ⟨[], []⟩ s₅).weaken ?_)
        rintro back t₂ s₆ ⟨parts, hparts⟩
        refine (ensures_giveBack f back s₆).weaken fun _ t₃ s' hback => ⟨parts, ?_⟩
        show Settles ([_, _, _, _] ++ (t₁ ++ (t₂ ++ t₃))) s' parts
        refine settles_of_loops ?_ rfl rfl rfl ?_ hes hparts hback
        · simp [polled]
        · simp [Action.Settling]
  obtain ⟨parts, hparts⟩ := hensures trail () s' htrail hrows
  exact ⟨parts, hparts, fun _ _ hgates _ hp _ he _ hresult => hparts.stamp_of_emit hgates hp he
    hresult⟩

/-- A row that does not parse, and two rows that do. -/
def threeRows : List SqlQueue.Request :=
  [⟨⟨"a", "t"⟩, "q", 0, 1, 1, 9, "", [], false, 0⟩,
   ⟨⟨"b", "t"⟩, "q", 0, 1, 1, 9, "b", [], false, 0⟩,
   ⟨⟨"c", "t"⟩, "q", 0, 1, 1, 9, "c", [], false, 0⟩]

def idFlow : Flow where
  batchSize := 3
  pollInterval := 1
  decode := fun envelope _ =>
    if envelope = "" then none
    else some ⟨envelope, .empty, ⟨0, "", "", 0, "", "", 0, false, .empty⟩⟩

/-- The gates continue with a release function, and the context ends when `b` has been handed
over. -/
def threeRowsExec : (a : Action) → Shelf → Option (a.Reply × Shelf)
  | .budget, s => some (1, s)
  | .poll .., s => some (some threeRows, s)
  | .now, s => some (0, s)
  | .spawn .., s => some ((), s)
  | .receive i, s => some (⟨.ok .proceed, ⟨"", .empty, .empty⟩, [⟨i, .entry 0⟩]⟩, s)
  | .gate (.leave _), s => some ((), s)
  | .emit _, s => some (true, s)
  | .sendRequest ir, s => some (decide (ir.id = "b"), s)
  | .swapReleases stamp releases, s =>
    some ((s stamp).held, Function.update s stamp ⟨releases, []⟩)
  | .takeReleases stamp, s => some ((s stamp).held, Function.update s stamp ⟨[], []⟩)
  | .undispatch _, s => some ((), s)
  | .defer .., s => some ((), s)
  | _, _ => none

lemma moves_threeRowsExec (a : Action) (s : Shelf) (r : a.Reply) (s' : Shelf)
    (h : threeRowsExec a s = some (r, s')) : Shelf.Moves a s r s' := by
  cases a with
  | swapReleases stamp releases | takeReleases stamp =>
    cases h
    exact ⟨rfl, .refl _⟩
  | gate a =>
    cases a with
    | leave hold =>
      cases h
      exact Shelf.Later.refl s
    | _ => exact nomatch h
  | hasRequests | deliver i out => exact nomatch h
  | _ =>
    cases h
    exact Shelf.Later.refl s

lemma ownEnvelope_idFlow {row : SqlQueue.Request}
    (h : row.envelope = "" ∨ row.envelope = row.key.id) : OwnEnvelope idFlow row := by
  intro ir hir
  obtain ⟨parsed, hparsed, rfl⟩ := Option.map_eq_some_iff.mp hir
  rcases h with hempty | hid
  · rw [hempty] at hparsed
    exact nomatch hparsed
  · simp only [idFlow] at hparsed
    split at hparsed
    · exact nomatch hparsed
    · cases hparsed
      exact ⟨hid, rfl⟩

/-- The row that does not parse gets a result, `b` is handed over and `c` is given back. -/
theorem processQueue_settles_threeRows :
    ∃ trail s', (processQueue idFlow ⟨"q", "q", "", 0, []⟩).Trail Shelf.Moves
        (fun _ => ⟨[], []⟩) trail () s' ∧
      PollTrail.read trail polled = threeRows ∧ (PollTrail.read trail emitted).length = 1 ∧
      (PollTrail.read trail handed).length = 1 ∧
      PollTrail.read trail undispatched = [⟨⟨"c", "t"⟩, 1⟩] ∧
      ∃ parts, Settles trail s' parts := by
  have hreads : ((processQueue idFlow ⟨"q", "q", "", 0, []⟩).record threeRowsExec
      (fun _ => ⟨[], []⟩)).map (fun out => (PollTrail.read out.1 polled,
        (PollTrail.read out.1 emitted).length, (PollTrail.read out.1 handed).length,
        PollTrail.read out.1 undispatched)) = some (threeRows, 1, 1, [⟨⟨"c", "t"⟩, 1⟩]) := by
    decide +kernel
  obtain ⟨⟨trail, u, s'⟩, hrecord, hout⟩ := Option.map_eq_some_iff.mp hreads
  have htrail := Prog.trail_of_record moves_threeRowsExec hrecord
  simp only [Prod.mk.injEq] at hout
  obtain ⟨hpolled, hemitted, hhanded, hundispatched⟩ := hout
  refine ⟨trail, s', htrail, hpolled, hemitted, hhanded, hundispatched, ?_⟩
  have hown : ∀ row ∈ PollTrail.read trail polled, OwnEnvelope idFlow row := by
    rw [hpolled]
    exact fun row hrow => ownEnvelope_idFlow ((by decide : ∀ row ∈ threeRows,
      row.envelope = "" ∨ row.envelope = row.key.id) row hrow)
  obtain ⟨parts, hparts, -⟩ := processQueue_settles _ _ _ _ trail htrail hown
  exact ⟨parts, hparts⟩

end LlmdAsync.SqlFlow
