import LlmdAsync.FlowControl.Gate

/-!
# Closed gates

A leaf that does not let a request through is meant to keep the whole tree closed.  `Gate.consult`
is the code of `Apply` with a record of the verdicts of the leaves it has consulted and of those
that saturation gates have given to `tier-priority-admission`.

`TierPriorityAdmissionGate` asks only whether its saturation gate has refused.  A saturation gate
that waits or drops counts as one that is not saturated, and the tree lets the request through.  As
long as this does not happen, a closed leaf keeps the tree closed.  It cannot happen where the trees
of saturation gates contain neither `wait-on-refuse` nor `tier-priority-admission`, and
`Gate.Leaks` are exactly the trees in which it can, for some request and some answers.
-/

namespace LlmdAsync.FlowControl

open List Gate Prog GateReturn

/-! ### Verdicts along a call -/

/-- The verdicts of the leaves that a call has consulted, and those of the saturation gates, in the
order in which they were given. -/
structure Consulted where
  leaves : List (Except String Verdict)
  saturations : List (Except String Verdict)

namespace Consulted

def nothing : Consulted := ⟨[], []⟩

def leaf (verdict : Except String Verdict) : Consulted := ⟨[verdict], []⟩

def append (c c' : Consulted) : Consulted :=
  ⟨c.leaves ++ c'.leaves, c.saturations ++ c'.saturations⟩

/-- A saturation gate has given its verdict. -/
def saturation (c : Consulted) (verdict : Except String Verdict) : Consulted :=
  { c with saturations := c.saturations ++ [verdict] }

end Consulted

/-- A verdict with which the request goes on. -/
def goesOn : Except String Verdict → Bool
  | .ok v => decide (v.action = .proceed)
  | .error _ => false

lemma GateReturn.proceeds_eq (r : GateReturn) : r.proceeds = goesOn r.verdict := by
  unfold proceeds goesOn
  cases r.verdict <;> rfl

/-- `Continue`, `Refuse` or an error: the verdicts that `TierPriorityAdmissionGate` tells apart. -/
def passesOn : Except String Verdict → Bool
  | .ok v => decide (v.action = .proceed ∨ v.action = .refuse)
  | .error _ => true

/-- A leaf, with its verdict. -/
def consultLeaf (p : GateCode GateReturn) : GateCode (GateReturn × Consulted) := do
  let r ← p
  pure (r, .leaf r.verdict)

section Consult

variable (locals : ℕ → LocalGate)

mutual

/-- `Apply`, with the verdicts along the call. -/
def Gate.consult : Gate → GateRequest → List Hold → GateCode (GateReturn × Consulted)
  | .constOpen, req, rel => consultLeaf (Gate.constOpen.apply locals req rel)
  | .budget source, req, rel => consultLeaf ((Gate.budget source).apply locals req rel)
  | .leasedRate gate, req, rel => consultLeaf ((Gate.leasedRate gate).apply locals req rel)
  | .quota g, req, rel => consultLeaf ((Gate.quota g).apply locals req rel)
  | .localConcurrency gate, req, rel =>
    consultLeaf ((Gate.localConcurrency gate).apply locals req rel)
  | .composite gates, req, rel => consultChain gates rel.length req rel
  | .waitOnRefuse inner, req, rel => do
    let (r, c) ← inner.consult req rel
    pure (r.waitOnRefuse, c)
  | .tierPriority saturation tierLabel, req, rel => do
    let (r, c) ← saturation.consult req rel
    pure (r.tierPriority tierLabel, c.saturation r.verdict)

/-- `ApplyChain`, with the verdicts along the call. -/
def Gate.consultChain :
    List Gate → ℕ → GateRequest → List Hold → GateCode (GateReturn × Consulted)
  | [], _, req, rel => pure (⟨.ok .proceed, req, rel⟩, .nothing)
  | gate :: gates, snapshot, req, rel => do
    let (r, c) ← gate.consult req rel
    if r.proceeds then
      let (r', c') ← consultChain gates snapshot r.req r.releases
      pure (r', c.append c')
    else
      let r' ← rollback snapshot r
      pure (r', c)

end

end Consult

section Erasure

variable (locals : ℕ → LocalGate)

lemma consultLeaf_fst (p : GateCode GateReturn) : consultLeaf p >>= (fun x => pure x.1) = p := by
  rw [consultLeaf, bind_bind]
  induction p with
  | done a => rfl
  | act i k ih => exact congrArg (act i) (funext fun r => ih r)

mutual

/-- Without the record, it is `Apply`. -/
theorem Gate.consult_fst (g : Gate) (req : GateRequest) (rel : List Hold) :
    g.consult locals req rel >>= (fun x => pure x.1) = g.apply locals req rel := by
  match g with
  | .constOpen | .budget source | .leasedRate gate | .quota g | .localConcurrency gate =>
    rw [consult]
    exact consultLeaf_fst _
  | .composite gates =>
    rw [consult, apply]
    exact consultChain_fst gates rel.length req rel
  | .waitOnRefuse inner =>
    rw [consult, apply, ← consult_fst inner req rel, bind_bind, bind_bind]
    rfl
  | .tierPriority saturation tierLabel =>
    rw [consult, apply, ← consult_fst saturation req rel, bind_bind, bind_bind]
    rfl

/-- Without the record, it is `ApplyChain`. -/
theorem Gate.consultChain_fst (gates : List Gate) (snapshot : ℕ) (req : GateRequest)
    (rel : List Hold) : consultChain locals gates snapshot req rel >>= (fun x => pure x.1) =
      applyChain locals gates snapshot req rel := by
  match gates with
  | [] =>
    rw [consultChain, applyChain]
    rfl
  | gate :: gates =>
    rw [consultChain, applyChain, ← consult_fst gate req rel, bind_bind, bind_bind]
    refine congrArg (gate.consult locals req rel >>= ·) (funext fun x => ?_)
    obtain ⟨r, c⟩ := x
    show (if r.proceeds then _ else _) >>= _ = if r.proceeds then _ else _
    split
    · rw [← consultChain_fst gates snapshot r.req r.releases, bind_bind]
      rfl
    · rw [rollback, bind_bind, bind_bind]
      rfl

end

lemma Gate.path_iff_consult {g : Gate} {req : GateRequest} {rel : List Hold}
    {tr : List (Sigma GateAction.Reply)} {r : GateReturn} :
    (g.apply locals req rel).Path tr r ↔ ∃ c, (g.consult locals req rel).Path tr (r, c) := by
  rw [← g.consult_fst]
  constructor
  · intro hp
    obtain ⟨tr₁, tr₂, ⟨r', c⟩, rfl, hp₁, hp₂⟩ := path_bind hp
    obtain ⟨rfl, rfl⟩ := path_pure hp₂
    exact ⟨c, (append_nil tr₁).symm ▸ hp₁⟩
  · rintro ⟨c, hp⟩
    exact append_nil tr ▸ hp.bind (.done r)

end Erasure

/-! ### A closed leaf keeps the tree closed -/

lemma returns_rollback {r : GateReturn} {c : Consulted} {Q : GateReturn × Consulted → Prop}
    (snapshot : ℕ) (h : Q ({ r with releases := r.releases.take snapshot }, c)) :
    (rollback snapshot r >>= fun r' => pure (r', c)).Returns Q := by
  rw [rollback, bind_bind]
  refine .bind ?_
  generalize releaseAll (r.releases.drop snapshot).reverse = p
  induction p with
  | done u => exact h
  | act i k ih => exact fun a => ih a

lemma returns_consultChain {locals : ℕ → LocalGate} {Q : GateReturn × Consulted → Prop}
    (hnil : ∀ req rel, Q (⟨.ok .proceed, req, rel⟩, ⟨[], []⟩))
    (happend : ∀ r c r' c', Q (r, c) → r.proceeds = true → Q (r', c') → Q (r', c.append c'))
    (htake : ∀ r c n, Q (r, c) → Q ({ r with releases := r.releases.take n }, c))
    {gates : List Gate}
    (h : ∀ gate ∈ gates, ∀ req rel, (gate.consult locals req rel).Returns Q) (snapshot : ℕ)
    (req : GateRequest) (rel : List Hold) :
    (consultChain locals gates snapshot req rel).Returns Q := by
  induction gates generalizing req rel with
  | nil =>
    rw [consultChain]
    exact hnil req rel
  | cons gate gates ih =>
    obtain ⟨hgate, hgates⟩ := forall_mem_cons.mp h
    rw [consultChain]
    refine .bind ((hgate req rel).weaken ?_)
    rintro ⟨r, c⟩ hr
    by_cases hproceeds : r.proceeds = true
    · simp only [hproceeds, ↓reduceIte]
      exact .bind ((ih hgates r.req r.releases).weaken fun _ => happend r c _ _ hr hproceeds)
    · simp only [hproceeds, Bool.false_eq_true, ↓reduceIte]
      exact returns_rollback snapshot (htake r c snapshot hr)

/-- If all saturation gates have continued, refused or failed, then a tree that continues has
consulted only leaves that continue. -/
def Closing (x : GateReturn × Consulted) : Prop :=
  (∀ v ∈ x.2.saturations, passesOn v = true) → x.1.proceeds = true →
    ∀ v ∈ x.2.leaves, goesOn v = true

namespace Closing

variable {r r' : GateReturn} {c c' : Consulted}

lemma leaf (r : GateReturn) : Closing (r, .leaf r.verdict) := by
  intro _ hproceeds v hv
  obtain rfl := mem_singleton.mp hv
  exact r.proceeds_eq ▸ hproceeds

lemma consultLeaf (p : GateCode GateReturn) : (consultLeaf p).Returns Closing := by
  refine .bind ?_
  induction p with
  | done r => exact leaf r
  | act i k ih => exact fun r => ih r

lemma wrap (h : Closing (r, c)) (hr : r'.proceeds = true → r.proceeds = true) :
    Closing (r', c) :=
  fun hsat hproceeds => h hsat (hr hproceeds)

lemma proceeds_of_waitOnRefuse (h : r.waitOnRefuse.proceeds = true) : r.proceeds = true := by
  unfold GateReturn.proceeds GateReturn.waitOnRefuse at h
  unfold GateReturn.proceeds
  cases hverdict : r.verdict with
  | error e =>
    rw [hverdict] at h
    cases h
  | ok v =>
    rw [hverdict] at h
    by_cases hrefuse : v.action = .refuse
    · simp [hrefuse] at h
    · simpa [hrefuse] using h

lemma saturatedVerdict_action (tierLabel : String) (req : GateRequest) :
    (saturatedVerdict tierLabel req).action ≠ .proceed := by
  unfold saturatedVerdict
  split
  · rintro ⟨⟩
  · split
    · rintro ⟨⟩
    · rintro ⟨⟩

lemma proceeds_of_tierPriority {tierLabel : String} (hpass : passesOn r.verdict = true)
    (h : (r.tierPriority tierLabel).proceeds = true) : r.proceeds = true := by
  unfold GateReturn.proceeds GateReturn.tierPriority at h
  unfold GateReturn.proceeds
  cases hverdict : r.verdict with
  | error e =>
    rw [hverdict] at h
    cases h
  | ok v =>
    rw [hverdict] at h hpass
    rcases of_decide_eq_true hpass with hproceed | hrefuse
    · exact decide_eq_true hproceed
    · simp only [hrefuse, ↓reduceIte, decide_eq_true_eq] at h
      exact absurd h (saturatedVerdict_action tierLabel r.req)

lemma tierPriority (h : Closing (r, c)) (tierLabel : String) :
    Closing (r.tierPriority tierLabel, c.saturation r.verdict) := by
  intro hsat hproceeds
  have hpass : passesOn r.verdict = true := hsat _ (mem_append_right _ mem_cons_self)
  have hinner : r.proceeds = true := proceeds_of_tierPriority hpass hproceeds
  exact h (fun v hv => hsat v (mem_append_left _ hv)) hinner

lemma append (h : Closing (r, c)) (hr : r.proceeds = true) (h' : Closing (r', c')) :
    Closing (r', c.append c') := by
  intro hsat hproceeds v hv
  rcases mem_append.mp hv with hv | hv
  · exact h (fun w hw => hsat w (mem_append_left _ hw)) hr v hv
  · exact h' (fun w hw => hsat w (mem_append_right _ hw)) hproceeds v hv

end Closing

theorem Gate.consult_closing (locals : ℕ → LocalGate) (g : Gate) (req : GateRequest)
    (rel : List Hold) : (g.consult locals req rel).Returns Closing := by
  match g with
  | .constOpen | .budget source | .leasedRate gate | .quota g | .localConcurrency gate =>
    rw [consult]
    exact Closing.consultLeaf _
  | .composite gates =>
    rw [consult]
    exact returns_consultChain (fun _ _ _ _ v hv => absurd hv not_mem_nil)
      (fun _ _ _ _ h hr h' => h.append hr h') (fun _ _ _ h => h.wrap id)
      (fun gate _ => consult_closing locals gate) rel.length req rel
  | .waitOnRefuse inner =>
    rw [consult]
    exact .bind ((consult_closing locals inner req rel).weaken fun _ h =>
      h.wrap Closing.proceeds_of_waitOnRefuse)
  | .tierPriority saturation tierLabel =>
    rw [consult]
    exact .bind ((consult_closing locals saturation req rel).weaken fun _ h =>
      h.tierPriority tierLabel)

/-! ### Trees in which this cannot happen -/

mutual

/-- Neither `wait-on-refuse` nor `tier-priority-admission` occurs in the tree. -/
def Gate.plain : Gate → Bool
  | .composite gates => allPlain gates
  | .waitOnRefuse _ => false
  | .tierPriority .. => false
  | _ => true

def Gate.allPlain : List Gate → Bool
  | [] => true
  | gate :: gates => gate.plain && allPlain gates

end

mutual

/-- The saturation gates in the tree are plain. -/
def Gate.layered : Gate → Bool
  | .composite gates => allLayered gates
  | .waitOnRefuse inner => inner.layered
  | .tierPriority saturation _ => saturation.plain
  | _ => true

def Gate.allLayered : List Gate → Bool
  | [] => true
  | gate :: gates => gate.layered && allLayered gates

end

lemma Gate.allPlain_iff {gates : List Gate} :
    allPlain gates = true ↔ ∀ g ∈ gates, g.plain = true := by
  induction gates with
  | nil => simp [allPlain]
  | cons g gates ih => simp [allPlain, ih]

lemma Gate.allLayered_iff {gates : List Gate} :
    allLayered gates = true ↔ ∀ g ∈ gates, g.layered = true := by
  induction gates with
  | nil => simp [allLayered]
  | cons g gates ih => simp [allLayered, ih]

/-! ### Trees in which it can happen -/

namespace Gate

section Leaks

variable (locals : ℕ → LocalGate)

/-- Some leaf of the gate can refuse, and no `wait-on-refuse` is above it: with `true` a quota gate,
which classifies the request as overflow, with `false` a gate of another kind. -/
inductive Refuses : Bool → Gate → Prop
  | budget (source : ℕ) : Refuses false (.budget source)
  | leasedRate (gate : ℕ) : Refuses false (.leasedRate gate)
  | quota {g : QuotaGate} (hmode : g.gatingMode = .blocking) : Refuses true (.quota g)
  | localConcurrency {gate : ℕ}
    (hmode : (locals gate).limit ≤ 0 ∨ (locals gate).gatingMode = .classifying) :
    Refuses false (.localConcurrency gate)
  | composite {quota : Bool} {gates : List Gate} {gate : Gate} (hmem : gate ∈ gates)
    (h : Refuses quota gate) : Refuses quota (.composite gates)
  | tierPriority {quota : Bool} {saturation : Gate} (h : Refuses quota saturation)
    (tierLabel : String) : Refuses quota (.tierPriority saturation tierLabel)

/-- A refusal in the gate can become `Wait` or `Drop`.  A `tier-priority-admission` whose label is
the classification itself takes no overflow for interactive. -/
inductive Stalls : Gate → Prop
  | refused {quota : Bool} {inner : Gate} (h : Refuses locals quota inner) :
    Stalls (.waitOnRefuse inner)
  | waitOnRefuse {inner : Gate} (h : Stalls inner) : Stalls (.waitOnRefuse inner)
  | composite {gates : List Gate} {gate : Gate} (hmem : gate ∈ gates) (h : Stalls gate) :
    Stalls (.composite gates)
  | reserved {saturation : Gate} (h : Refuses locals false saturation) (tierLabel : String) :
    Stalls (.tierPriority saturation tierLabel)
  | dropped {saturation : Gate} (h : Refuses locals true saturation) {tierLabel : String}
    (hlabel : tierLabel ≠ labelClassification) : Stalls (.tierPriority saturation tierLabel)

/-- Somewhere in the tree a refusal can become `Wait` or `Drop` below `tier-priority-admission`. -/
inductive Leaks : Gate → Prop
  | saturation {saturation : Gate} (h : Stalls locals saturation) (tierLabel : String) :
    Leaks (.tierPriority saturation tierLabel)
  | tierPriority {saturation : Gate} (h : Leaks saturation) (tierLabel : String) :
    Leaks (.tierPriority saturation tierLabel)
  | waitOnRefuse {inner : Gate} (h : Leaks inner) : Leaks (.waitOnRefuse inner)
  | composite {gates : List Gate} {gate : Gate} (hmem : gate ∈ gates) (h : Leaks gate) :
    Leaks (.composite gates)

/-- Refusals, verdicts that wait or drop, and requests that go on over a closed leaf come from gates
in which they can come about. -/
structure Accounted (g : Gate) (x : GateReturn × Consulted) : Prop where
  refuses : ∀ v, x.1.verdict = .ok v → v.action = .refuse → g.Refuses locals false ∨
    g.Refuses locals true ∧ x.1.req.getClassification = classificationOverflow
  stalls : passesOn x.1.verdict = false → g.Stalls locals
  leaks : x.1.proceeds = true → ∀ v ∈ x.2.leaves, goesOn v = false → g.Leaks locals

end Leaks

section Layers

variable {locals : ℕ → LocalGate} {g : Gate}

/-- A plain tree neither waits nor drops. -/
lemma Stalls.not_plain (h : g.Stalls locals) : ¬g.plain = true := by
  induction h with
  | composite hmem _ ih =>
    rw [plain, allPlain_iff]
    exact fun hplain => ih (hplain _ hmem)
  | _ => simp [plain]

lemma Leaks.not_plain (h : g.Leaks locals) : ¬g.plain = true := by
  induction h with
  | composite hmem _ ih =>
    rw [plain, allPlain_iff]
    exact fun hplain => ih (hplain _ hmem)
  | _ => simp [plain]

/-- In a layered tree no saturation gate waits or drops. -/
lemma Leaks.not_layered (h : g.Leaks locals) : ¬g.layered = true := by
  induction h with
  | saturation h tierLabel => exact h.not_plain
  | tierPriority h tierLabel _ => exact h.not_plain
  | waitOnRefuse _ ih =>
    rw [layered]
    exact ih
  | composite hmem _ ih =>
    rw [layered, allLayered_iff]
    exact fun hlayered => ih (hlayered _ hmem)

end Layers

namespace Accounted

variable {locals : ℕ → LocalGate} {g : Gate} {r : GateReturn} {c : Consulted}

lemma consultLeaf {p : GateCode GateReturn} (h : p.Returns fun r => passesOn r.verdict = true ∧
      ∀ v, r.verdict = .ok v → v.action = .refuse → g.Refuses locals false ∨
        g.Refuses locals true ∧ r.req.getClassification = classificationOverflow) :
    (consultLeaf p).Returns (Accounted locals g) := by
  refine .bind (h.weaken fun r hr => ⟨hr.2, fun hstall => ?_, ?_⟩)
  · rw [hr.1] at hstall
    cases hstall
  · intro hproceeds v hv hclosed
    obtain rfl := mem_singleton.mp hv
    rw [r.proceeds_eq, hclosed] at hproceeds
    cases hproceeds

lemma composite {gates : List Gate} (hmem : g ∈ gates) (h : Accounted locals g (r, c)) :
    Accounted locals (.composite gates) (r, c) where
  refuses v hv hrefuse := (h.refuses v hv hrefuse).imp (.composite hmem)
    fun hquota => ⟨.composite hmem hquota.1, hquota.2⟩
  stalls hstall := .composite hmem (h.stalls hstall)
  leaks hproceeds v hv hclosed := .composite hmem (h.leaks hproceeds v hv hclosed)

lemma append {r' : GateReturn} {c' : Consulted} (h : Accounted locals g (r, c))
    (hr : r.proceeds = true) (h' : Accounted locals g (r', c')) :
    Accounted locals g (r', c.append c') where
  refuses := h'.refuses
  stalls := h'.stalls
  leaks hproceeds v hv hclosed := (mem_append.mp hv).elim
    (fun hv => h.leaks hr v hv hclosed) (fun hv => h'.leaks hproceeds v hv hclosed)

lemma waitOnRefuse (h : Accounted locals g (r, c)) :
    Accounted locals (.waitOnRefuse g) (r.waitOnRefuse, c) where
  refuses v hv hrefuse := by
    unfold GateReturn.waitOnRefuse at hv
    cases hverdict : r.verdict with
    | error e => simp [hverdict] at hv
    | ok w =>
      simp only [hverdict, Except.ok.injEq] at hv
      subst hv
      split at hrefuse
      · cases hrefuse
      next hne => exact absurd hrefuse hne
  stalls hstall := by
    unfold GateReturn.waitOnRefuse at hstall
    cases hverdict : r.verdict with
    | error e => simp [hverdict, passesOn] at hstall
    | ok w =>
      by_cases hrefuse : w.action = .refuse
      · exact (h.refuses w hverdict hrefuse).elim .refused fun hquota => .refused hquota.1
      · refine .waitOnRefuse (h.stalls ?_)
        simpa [hverdict, hrefuse] using hstall
  leaks hproceeds v hv hclosed :=
    .waitOnRefuse (h.leaks (Closing.proceeds_of_waitOnRefuse hproceeds) v hv hclosed)

/-- An overflow is not interactive. -/
lemma saturatedVerdict_of_overflow {req : GateRequest}
    (h : req.getClassification = classificationOverflow) :
    saturatedVerdict labelClassification req = .refuse := by
  have hlabel : (Hash.hget req.labels labelClassification).getD "" = classificationOverflow := h
  rw [saturatedVerdict, h, hlabel, if_neg (by decide), if_neg (by decide)]

lemma tierPriority (h : Accounted locals g (r, c)) (tierLabel : String) :
    Accounted locals (.tierPriority g tierLabel)
      (r.tierPriority tierLabel, c.saturation r.verdict) := by
  unfold GateReturn.tierPriority
  cases hverdict : r.verdict with
  | error e => exact ⟨nofun, nofun, nofun⟩
  | ok w =>
    by_cases hrefuse : w.action = .refuse
    · have hinner := h.refuses w hverdict hrefuse
      simp only [hrefuse, ↓reduceIte]
      refine ⟨fun v _ _ => ?_, fun hstall => ?_, fun hproceeds => ?_⟩
      · exact hinner.imp (.tierPriority · tierLabel) fun hquota =>
          ⟨.tierPriority hquota.1 tierLabel, hquota.2⟩
      · rcases hinner with hfree | ⟨hquota, hoverflow⟩
        · exact .reserved hfree tierLabel
        · refine .dropped hquota ?_
          rintro rfl
          rw [saturatedVerdict_of_overflow hoverflow] at hstall
          cases hstall
      · exact absurd (of_decide_eq_true hproceeds)
          (Closing.saturatedVerdict_action tierLabel r.req)
    · simp only [hrefuse, ↓reduceIte]
      refine ⟨?_, nofun, fun _ v hv hclosed => ?_⟩
      · rintro v ⟨⟩ ⟨⟩
      · cases hpass : passesOn r.verdict with
        | false => exact .saturation (h.stalls hpass) tierLabel
        | true =>
          refine .tierPriority (h.leaks ?_ v hv hclosed) tierLabel
          rw [hverdict] at hpass
          rw [r.proceeds_eq, hverdict]
          exact decide_eq_true ((of_decide_eq_true hpass).resolve_right hrefuse)

end Accounted

end Gate

lemma QuotaGate.apply_accounted (g : QuotaGate) (req : GateRequest) (rel : List Hold) :
    (g.apply req rel).Returns fun r => passesOn r.verdict = true ∧
      ∀ v, r.verdict = .ok v → v.action = .refuse →
        g.gatingMode = .blocking ∧ r.req.getClassification = classificationOverflow := by
  have hfinish : ∀ key answer, passesOn (g.finish key req rel answer).verdict = true ∧
      ∀ v, (g.finish key req rel answer).verdict = .ok v → v.action = .refuse →
        g.gatingMode = .blocking ∧
          (g.finish key req rel answer).req.getClassification = classificationOverflow := by
    intro key answer
    match answer with
    | .error e => exact ⟨rfl, nofun⟩
    | .ok none =>
      unfold QuotaGate.finish
      cases g.gatingMode with
      | blocking => exact ⟨rfl, fun _ _ _ => ⟨rfl, by simp [GateRequest.getClassification,
          GateRequest.setClassification]⟩⟩
      | classifying =>
        refine ⟨rfl, ?_⟩
        rintro v ⟨⟩ ⟨⟩
    | .ok (some hs) =>
      refine ⟨rfl, ?_⟩
      rintro v ⟨⟩ ⟨⟩
  unfold QuotaGate.apply
  split
  · refine ⟨rfl, ?_⟩
    rintro v ⟨⟩ ⟨⟩
  · split
    · exact fun slot => hfinish _ _
    · exact fun admitted => hfinish _ _

lemma LocalGate.apply_accounted (g : LocalGate) (gate : ℕ) (req : GateRequest) (rel : List Hold) :
    (g.apply gate req rel).Returns fun r => passesOn r.verdict = true ∧
      ∀ v, r.verdict = .ok v → v.action = .refuse → g.limit ≤ 0 ∨ g.gatingMode = .classifying := by
  unfold LocalGate.apply
  split
  next hlimit => exact ⟨rfl, fun _ _ _ => .inl hlimit⟩
  · cases g.gatingMode with
    | classifying =>
      intro entered
      cases entered with
      | none | some id => exact ⟨rfl, fun _ _ _ => .inr rfl⟩
    | blocking =>
      intro sent
      cases sent with
      | error e => exact ⟨rfl, nofun⟩
      | ok id =>
        refine fun _ => ⟨rfl, ?_⟩
        rintro v ⟨⟩ ⟨⟩

theorem Gate.consult_accounted {locals : ℕ → LocalGate} (g : Gate) (req : GateRequest)
    (rel : List Hold) : (g.consult locals req rel).Returns (Accounted locals g) := by
  match g with
  | .constOpen =>
    rw [consult, apply]
    refine Accounted.consultLeaf (p := pure _) ⟨rfl, ?_⟩
    rintro v ⟨⟩ ⟨⟩
  | .budget source =>
    rw [consult, apply]
    refine Accounted.consultLeaf fun budget => ⟨?_, fun _ _ _ => .inl (.budget source)⟩
    show passesOn (.ok (if (budget : ℚ) ≤ 0 then _ else _)) = true
    split <;> rfl
  | .leasedRate gate =>
    rw [consult, apply]
    refine Accounted.consultLeaf fun allowed => ⟨?_, fun _ _ _ => .inl (.leasedRate gate)⟩
    show passesOn (.ok (if (allowed : Option Bool) = some true then _ else _)) = true
    split <;> rfl
  | .quota g =>
    rw [consult, apply]
    exact Accounted.consultLeaf ((g.apply_accounted req rel).weaken fun _ h => ⟨h.1,
      fun v hv hrefuse => .inr ⟨.quota (h.2 v hv hrefuse).1, (h.2 v hv hrefuse).2⟩⟩)
  | .localConcurrency gate =>
    rw [consult, apply]
    exact Accounted.consultLeaf (((locals gate).apply_accounted gate req rel).weaken fun _ h =>
      ⟨h.1, fun v hv hrefuse => .inl (.localConcurrency (h.2 v hv hrefuse))⟩)
  | .composite gates =>
    rw [consult]
    refine returns_consultChain (fun _ _ => ⟨?_, nofun, fun _ v hv => absurd hv not_mem_nil⟩)
      (fun _ _ _ _ h hr h' => h.append hr h') (fun _ _ _ h => ⟨h.refuses, h.stalls, h.leaks⟩)
      (fun gate hmem req rel => (consult_accounted gate req rel).weaken
        fun _ h => h.composite hmem) rel.length req rel
    rintro v ⟨⟩ ⟨⟩
  | .waitOnRefuse inner =>
    rw [consult]
    exact .bind ((consult_accounted inner req rel).weaken fun _ h => h.waitOnRefuse)
  | .tierPriority saturation tierLabel =>
    rw [consult]
    exact .bind ((consult_accounted saturation req rel).weaken fun _ h =>
      h.tierPriority tierLabel)

/-- A closed leaf keeps a layered tree closed, whatever is answered. -/
theorem layered_tree_closed {locals : ℕ → LocalGate} {g : Gate} (hg : g.layered = true)
    {req : GateRequest} {rel : List Hold} {tr : List (Sigma GateAction.Reply)} {r : GateReturn}
    (hp : (g.apply locals req rel).Path tr r) (hproceeds : r.proceeds = true) :
    ∃ c, (g.consult locals req rel).Path tr (r, c) ∧ ∀ v ∈ c.leaves, goesOn v = true := by
  obtain ⟨c, hc⟩ := (path_iff_consult locals).mp hp
  refine ⟨c, hc, fun v hv => ?_⟩
  rw [← Bool.not_eq_false]
  intro hclosed
  exact (((g.consult_accounted req rel).path hc).leaks hproceeds v hv hclosed).not_layered hg

/-- A request that belongs to nobody. -/
def bareRequest : GateRequest := ⟨"r", .empty, .empty⟩

/-- A saturation gate with two leaves, next to a gate that waits: with both budgets left and a token
in the bucket, the leaves that have been consulted have all continued. -/
theorem waiting_budget_open :
    ∃ c, ((Gate.composite [.tierPriority (.composite [.budget 0, .leasedRate 0]) "tier",
        .waitOnRefuse (.budget 1)]).consult (fun _ => ⟨1, .blocking⟩) bareRequest []).Path
      [⟨.budget 0, (1 : ℚ)⟩, ⟨.leasedRate 0, some true⟩, ⟨.budget 1, (1 : ℚ)⟩]
      (⟨.ok .proceed, bareRequest, []⟩, c) ∧
      ∀ v ∈ c.leaves, goesOn v = true :=
  layered_tree_closed (by decide) (.act _ (.act _ (.act _ (.done _)))) rfl

lemma canReturn_rollback {r : GateReturn} {c : Consulted} {Q : GateReturn × Consulted → Prop}
    (snapshot : ℕ) (h : Q ({ r with releases := r.releases.take snapshot }, c)) :
    (rollback snapshot r >>= fun r' => pure (r', c)).CanReturn Q := by
  have hrelease : ∀ hold : Hold, hold.release.CanReturn fun _ => True := by
    intro hold
    unfold Hold.release
    split
    · exact ⟨(), (), trivial⟩
    · exact ⟨(), trivial⟩
    · exact ⟨(), trivial⟩
  have hall : ∀ holds, (releaseAll holds).CanReturn fun _ => True := by
    intro holds
    induction holds with
    | nil => exact trivial
    | cons hold holds ih => exact .bind ((hrelease hold).weaken fun _ _ => ih)
  rw [rollback, bind_bind]
  exact .bind ((hall _).weaken fun _ _ => h)

section Completeness

variable {locals : ℕ → LocalGate}

lemma canReturn_consultLeaf {p : GateCode GateReturn} {Q : GateReturn × Consulted → Prop}
    (h : p.CanReturn fun r => Q (r, .leaf r.verdict)) : (consultLeaf p).CanReturn Q :=
  .bind (h.weaken fun _ hr => hr)

lemma QuotaGate.canReturn_apply {g : QuotaGate} {req : GateRequest} {rel : List Hold}
    {Q : GateReturn → Prop} {val : String} (hattr : Hash.hget req.metadata g.attr = some val)
    (h : Q (g.finish (g.key val) req rel (.ok none))) : (g.apply req rel).CanReturn Q := by
  unfold QuotaGate.apply
  rw [hattr]
  cases g.mode with
  | concurrency => exact ⟨.ok none, h⟩
  | rateLimit => exact ⟨.ok false, h⟩

lemma canReturn_chain_proceeds {gates : List Gate} (h : ∀ gate ∈ gates, ∀ req rel,
      (gate.consult locals req rel).CanReturn fun x => x.1.proceeds = true) (snapshot : ℕ)
    (req : GateRequest) (rel : List Hold) :
    (consultChain locals gates snapshot req rel).CanReturn fun x => x.1.proceeds = true := by
  induction gates generalizing req rel with
  | nil =>
    rw [consultChain]
    exact rfl
  | cons gate gates ih =>
    obtain ⟨hgate, hgates⟩ := forall_mem_cons.mp h
    rw [consultChain]
    refine .bind ((hgate req rel).weaken fun x hx => ?_)
    simp only [hx, ↓reduceIte]
    exact .bind ((ih hgates x.1.req x.1.releases).weaken fun _ hy => hy)

/-- Every gate lets every request through with some answers. -/
theorem Gate.canReturn_proceeds (hlocals : ∀ gate, 0 < (locals gate).limit) (g : Gate)
    (req : GateRequest) (rel : List Hold) :
    (g.consult locals req rel).CanReturn fun x => x.1.proceeds = true := by
  match g with
  | .constOpen =>
    rw [consult, apply]
    exact rfl
  | .budget source =>
    rw [consult, apply]
    exact ⟨(1 : ℚ), rfl⟩
  | .leasedRate gate =>
    rw [consult, apply]
    exact ⟨some true, rfl⟩
  | .quota g =>
    rw [consult, apply]
    refine canReturn_consultLeaf ?_
    unfold QuotaGate.apply
    split
    · exact rfl
    · cases g.mode with
      | concurrency => exact ⟨.ok (some 0), rfl⟩
      | rateLimit => exact ⟨.ok true, rfl⟩
  | .localConcurrency gate =>
    rw [consult, apply]
    refine canReturn_consultLeaf ?_
    unfold LocalGate.apply
    rw [if_neg (not_le.mpr (hlocals gate))]
    cases (locals gate).gatingMode with
    | blocking => exact ⟨.ok 0, (), rfl⟩
    | classifying => exact ⟨some 0, rfl⟩
  | .composite gates =>
    rw [consult]
    exact canReturn_chain_proceeds (fun gate _ => canReturn_proceeds hlocals gate) rel.length
      req rel
  | .waitOnRefuse inner =>
    rw [consult]
    refine .bind ((canReturn_proceeds hlocals inner req rel).weaken fun x hx => ?_)
    exact proceeds_waitOnRefuse hx
  | .tierPriority saturation tierLabel =>
    rw [consult]
    refine .bind ((canReturn_proceeds hlocals saturation req rel).weaken fun x hx => ?_)
    obtain ⟨v, hv, hproceed⟩ := exists_of_proceeds hx
    exact proceeds_tierPriority hv (by simp [hproceed]) tierLabel

lemma Gate.consult_about (g : Gate) (req : GateRequest) (rel : List Hold) :
    (g.consult locals req rel).Returns fun x => About req x.1 := by
  have habout := g.apply_about locals req rel
  rw [← g.consult_fst] at habout
  exact habout.of_bind

lemma canReturn_consultChain (hlocals : ∀ gate, 0 < (locals gate).limit) {K : GateRequest → Prop}
    {Q : GateReturn × Consulted → Prop} (hK : ∀ req r, K req → About req r → K r.req)
    (hbefore : ∀ (c : Consulted) r c', Q (r, c') → Q (r, c.append c'))
    (hafter : ∀ r c r' c', Q (r, c) → r.proceeds = true → r'.proceeds = true →
      Q (r', c.append c'))
    (htake : ∀ r c n, Q (r, c) → Q ({ r with releases := r.releases.take n }, c))
    {gates : List Gate} {gate : Gate} (hmem : gate ∈ gates)
    (h : ∀ req rel, K req → (gate.consult locals req rel).CanReturn Q) (snapshot : ℕ)
    {req : GateRequest} (hreq : K req) (rel : List Hold) :
    (consultChain locals gates snapshot req rel).CanReturn Q := by
  induction gates generalizing req rel with
  | nil => exact absurd hmem not_mem_nil
  | cons first gates ih =>
    rw [consultChain]
    rcases mem_cons.mp hmem with rfl | hmem
    · refine .bind ((h req rel hreq).weaken fun x hx => ?_)
      by_cases hproceeds : x.1.proceeds = true
      · simp only [hproceeds, ↓reduceIte]
        have hrest := canReturn_chain_proceeds (fun gate (_ : gate ∈ gates) =>
          gate.canReturn_proceeds hlocals) snapshot x.1.req x.1.releases
        exact .bind (hrest.weaken fun y hy => hafter x.1 x.2 y.1 y.2 hx hproceeds hy)
      · simp only [hproceeds, Bool.false_eq_true, ↓reduceIte]
        exact canReturn_rollback snapshot (htake _ _ snapshot hx)
    · refine .bind (((first.canReturn_proceeds hlocals req rel).returns
        (first.consult_about req rel)).weaken fun x hx => ?_)
      simp only [hx.1, ↓reduceIte]
      exact .bind ((ih hmem (hK req x.1 hreq hx.2) x.1.releases).weaken
        fun y hy => hbefore x.2 y.1 y.2 hy)

/-- A leaf is closed, and the call gives a verdict all the same. -/
def Decided (x : GateReturn × Consulted) (P : Verdict → Prop) : Prop :=
  (∃ v, x.1.verdict = .ok v ∧ P v) ∧ ∃ v ∈ x.2.leaves, goesOn v = false

lemma Decided.weaken {x : GateReturn × Consulted} {P P' : Verdict → Prop} (h : Decided x P)
    (hP : ∀ v, P v → P' v) : Decided x P' := by
  obtain ⟨⟨v, hv, hPv⟩, hleaf⟩ := h
  exact ⟨⟨v, hv, hP v hPv⟩, hleaf⟩

lemma Decided.before {r : GateReturn} {c c' : Consulted} {P : Verdict → Prop}
    (h : Decided (r, c') P) : Decided (r, c.append c') P := by
  obtain ⟨hverdict, v, hv, hclosed⟩ := h
  exact ⟨hverdict, v, mem_append_right _ hv, hclosed⟩

lemma Decided.after {r r' : GateReturn} {c c' : Consulted} {P P' : Verdict → Prop}
    (h : Decided (r, c) P) (hr : r'.proceeds = true)
    (hP : ∀ v : Verdict, v.action = .proceed → P' v) : Decided (r', c.append c') P' := by
  obtain ⟨-, v, hv, hclosed⟩ := h
  obtain ⟨w, hw, hproceed⟩ := exists_of_proceeds hr
  exact ⟨⟨w, hw, hP w hproceed⟩, v, mem_append_left _ hv, hclosed⟩

/-- `TierPriorityAdmissionGate` goes on where its saturation gate does not refuse. -/
lemma Decided.tierPriority {r : GateReturn} {c : Consulted}
    (h : Decided (r, c) fun v => v.action ≠ .refuse) (tierLabel : String) :
    Decided (r.tierPriority tierLabel, c.saturation r.verdict) fun v => v.action = .proceed := by
  obtain ⟨⟨v, hv, hne⟩, hleaf⟩ := h
  exact ⟨exists_of_proceeds (proceeds_tierPriority hv hne tierLabel), hleaf⟩

/-- `WaitOnRefuseGate` does not refuse. -/
lemma Decided.waitOnRefuse {r : GateReturn} {c : Consulted} {P : Verdict → Prop}
    (h : Decided (r, c) P) : Decided (r.waitOnRefuse, c) fun v => v.action ≠ .refuse := by
  obtain ⟨⟨v, hv, -⟩, hleaf⟩ := h
  refine ⟨⟨if v.action = .refuse then { v with action := .wait } else v, ?_, ?_⟩, hleaf⟩
  · change r.verdict = .ok v at hv
    simp [GateReturn.waitOnRefuse, hv]
  · split
    · rintro ⟨⟩
    next hne => exact hne

/-- A `tier-priority-admission` does not refuse if its verdict on a refusal is another. -/
lemma Decided.saturated {x : GateReturn × Consulted} {P : Prop}
    (h : Decided x fun v => v.action = .refuse → P) (tierLabel : String)
    (hverdict : P → (saturatedVerdict tierLabel x.1.req).action ≠ .refuse) :
    Decided (x.1.tierPriority tierLabel, x.2.saturation x.1.verdict)
      fun v => v.action ≠ .refuse := by
  obtain ⟨⟨v, hv, hP⟩, hleaf⟩ := h
  by_cases hrefuse : v.action = .refuse
  · refine ⟨⟨saturatedVerdict tierLabel x.1.req, ?_, hverdict (hP hrefuse)⟩, hleaf⟩
    simp [GateReturn.tierPriority, hv, hrefuse]
  · have hgoes : Decided x fun v => v.action ≠ .refuse := ⟨⟨v, hv, hrefuse⟩, hleaf⟩
    refine (hgoes.tierPriority tierLabel).weaken fun v hv => ?_
    rw [hv]
    rintro ⟨⟩

/-- The attributes with which a leaf can refuse: a quota gate looks for its own, and without any no
quota gate classifies the request. -/
def Fits : Bool → String → Hash String String → Prop
  | true, attr, metadata => (Hash.hget metadata attr).isSome = true
  | false, _, metadata => ∀ k, Hash.hget metadata k = none

/-- A leaf refuses, and if the whole gate does, a quota gate has left its classification. -/
lemma Gate.Refuses.canReturn (hlocals : ∀ gate, 0 < (locals gate).limit) {quota : Bool} {g : Gate}
    (h : g.Refuses locals quota) : ∃ attr, ∀ req rel, Fits quota attr req.metadata →
      (g.consult locals req rel).CanReturn fun x => Decided x fun v => v.action = .refuse →
        quota = true → x.1.req.getClassification = classificationOverflow := by
  induction h with
  | budget source =>
    refine ⟨"", fun req rel _ => ?_⟩
    rw [consult, apply]
    exact ⟨(0 : ℚ), ⟨.refuse, rfl, nofun⟩, .ok .refuse, mem_cons_self, rfl⟩
  | leasedRate gate =>
    refine ⟨"", fun req rel _ => ?_⟩
    rw [consult, apply]
    exact ⟨none, ⟨.refuse, rfl, nofun⟩, .ok .refuse, mem_cons_self, rfl⟩
  | @quota g hmode =>
    refine ⟨g.attr, fun req rel hfits => ?_⟩
    obtain ⟨val, hattr⟩ := Option.isSome_iff_exists.mp hfits
    rw [consult, apply]
    refine canReturn_consultLeaf (QuotaGate.canReturn_apply hattr ?_)
    unfold QuotaGate.finish
    rw [hmode]
    refine ⟨⟨_, rfl, fun _ _ => ?_⟩, _, mem_cons_self, rfl⟩
    simp [GateRequest.getClassification, GateRequest.setClassification]
  | @localConcurrency gate hmode =>
    refine ⟨"", fun req rel _ => ?_⟩
    rw [consult, apply]
    refine canReturn_consultLeaf ?_
    unfold LocalGate.apply
    rw [if_neg (not_le.mpr (hlocals gate)), hmode.resolve_left (not_le.mpr (hlocals gate))]
    exact ⟨none, ⟨.refuse, rfl, nofun⟩, .ok .refuse, mem_cons_self, rfl⟩
  | @composite quota gates gate hmem _ ih =>
    obtain ⟨attr, hgate⟩ := ih
    refine ⟨attr, fun req rel hfits => ?_⟩
    rw [consult]
    refine canReturn_consultChain hlocals (fun _ _ hfits hr => hr.metadata.symm ▸ hfits)
      (fun _ _ _ hx => hx.before) (fun r c r' c' hx _ hr' => hx.after hr' fun v hv hrefuse => ?_)
      (fun _ _ _ hx => hx) hmem hgate rel.length hfits rel
    rw [hv] at hrefuse
    cases hrefuse
  | @tierPriority quota saturation _ tierLabel ih =>
    obtain ⟨attr, hsaturation⟩ := ih
    refine ⟨attr, fun req rel hfits => ?_⟩
    rw [consult]
    refine .bind ((hsaturation req rel hfits).weaken fun x hx => ?_)
    by_cases hrefuse : ∃ v, x.1.verdict = .ok v ∧ v.action = .refuse
    · obtain ⟨v, hv, hrefuse⟩ := hrefuse
      obtain ⟨⟨w, hw, hclass⟩, hleaf⟩ := hx
      obtain rfl : v = w := Except.ok.inj (hv.symm.trans hw)
      refine ⟨⟨saturatedVerdict tierLabel x.1.req, ?_, fun _ => hclass hrefuse⟩, hleaf⟩
      simp [GateReturn.tierPriority, hv, hrefuse]
    · have hgoes : Decided x fun v => v.action ≠ .refuse := by
        obtain ⟨⟨v, hv, -⟩, hleaf⟩ := hx
        exact ⟨⟨v, hv, fun h => hrefuse ⟨v, hv, h⟩⟩, hleaf⟩
      refine (hgoes.tierPriority tierLabel).weaken fun v hv hrefuse => ?_
      rw [hv] at hrefuse
      cases hrefuse

/-- What gates can make of a request: its classification may change, and that only if it has
attributes. -/
structure Alike (req₀ req : GateRequest) : Prop where
  metadata : req.metadata = req₀.metadata
  labels : ∀ k, k ≠ labelClassification → Hash.hget req.labels k = Hash.hget req₀.labels k
  unasked : (∀ k, Hash.hget req₀.metadata k = none) → req = req₀

lemma Alike.refl (req : GateRequest) : Alike req req := ⟨rfl, fun _ _ => rfl, fun _ => rfl⟩

lemma Alike.about {req₀ req : GateRequest} {r : GateReturn} (h : Alike req₀ req)
    (hr : About req r) : Alike req₀ r.req where
  metadata := hr.metadata.trans h.metadata
  labels k hk := (hr.labels k hk).trans (h.labels k hk)
  unasked hnone := (hr.unasked (h.metadata ▸ hnone)).trans (h.unasked hnone)

/-- A request with an attribute, if a quota gate is to refuse it. -/
def attributed (quota : Bool) (attr : String) (labels : Hash String String) : GateRequest :=
  ⟨"r", if quota then Hash.hset .empty attr "" else .empty, labels⟩

lemma fits_attributed {quota : Bool} {attr : String} {labels : Hash String String}
    {req : GateRequest} (h : Alike (attributed quota attr labels) req) :
    Fits quota attr req.metadata := by
  rw [h.metadata]
  cases quota with
  | true => simp [Fits, attributed]
  | false => simp [Fits, attributed]

/-- A verdict that is not a refusal over a closed leaf. -/
lemma Gate.Stalls.canReturn (hlocals : ∀ gate, 0 < (locals gate).limit) {g : Gate}
    (h : g.Stalls locals) : ∃ req₀, ∀ req rel, Alike req₀ req →
      (g.consult locals req rel).CanReturn fun x => Decided x fun v => v.action ≠ .refuse := by
  induction h with
  | @refused quota inner h =>
    obtain ⟨attr, hinner⟩ := h.canReturn hlocals
    refine ⟨attributed quota attr .empty, fun req rel hreq => ?_⟩
    rw [consult]
    exact .bind ((hinner req rel (fits_attributed hreq)).weaken fun _ hx => hx.waitOnRefuse)
  | @waitOnRefuse inner _ ih =>
    obtain ⟨req₀, hinner⟩ := ih
    refine ⟨req₀, fun req rel hreq => ?_⟩
    rw [consult]
    exact .bind ((hinner req rel hreq).weaken fun _ hx => hx.waitOnRefuse)
  | @composite gates gate hmem _ ih =>
    obtain ⟨req₀, hgate⟩ := ih
    refine ⟨req₀, fun req rel hreq => ?_⟩
    rw [consult]
    refine canReturn_consultChain hlocals (fun _ _ h hr => h.about hr) (fun _ _ _ hx => hx.before)
      (fun r c r' c' hx _ hr' => hx.after hr' fun v hv => ?_) (fun _ _ _ hx => hx) hmem hgate
      rel.length hreq rel
    rw [hv]
    rintro ⟨⟩
  | @reserved saturation h tierLabel =>
    obtain ⟨attr, hsaturation⟩ := h.canReturn hlocals
    let labels := Hash.hset .empty labelClassification classificationReserved
    refine ⟨attributed false attr labels, fun req rel hreq => ?_⟩
    rw [consult]
    refine .bind (((hsaturation req rel (fits_attributed hreq)).returns
      (saturation.consult_about req rel)).weaken fun x hx => ?_)
    have hsame : x.1.req = attributed false attr labels :=
      (hreq.about hx.2).unasked fun k => rfl
    have hclass : x.1.req.getClassification = classificationReserved := by
      simp [hsame, attributed, labels, GateRequest.getClassification]
    refine hx.1.saturated tierLabel fun _ => ?_
    rw [saturatedVerdict, if_pos hclass]
    rintro ⟨⟩
  | @dropped saturation h tierLabel hlabel =>
    obtain ⟨attr, hsaturation⟩ := h.canReturn hlocals
    refine ⟨attributed true attr (Hash.hset .empty tierLabel tierInteractive),
      fun req rel hreq => ?_⟩
    rw [consult]
    refine .bind (((hsaturation req rel (fits_attributed hreq)).returns
      (saturation.consult_about req rel)).weaken fun x hx => ?_)
    have htier : Hash.hget x.1.req.labels tierLabel = some tierInteractive := by
      rw [(hreq.about hx.2).labels tierLabel hlabel]
      simp [attributed]
    refine hx.1.saturated tierLabel fun hclass => ?_
    rw [saturatedVerdict, hclass rfl, htier, if_neg (by decide), if_pos ⟨rfl, rfl⟩]
    rintro ⟨⟩

/-- A leaf is closed, and the request goes on. -/
lemma Gate.Leaks.canReturn (hlocals : ∀ gate, 0 < (locals gate).limit) {g : Gate}
    (h : g.Leaks locals) : ∃ req₀, ∀ req rel, Alike req₀ req →
      (g.consult locals req rel).CanReturn fun x => Decided x fun v => v.action = .proceed := by
  induction h with
  | @saturation saturation h tierLabel =>
    obtain ⟨req₀, hsaturation⟩ := h.canReturn hlocals
    refine ⟨req₀, fun req rel hreq => ?_⟩
    rw [consult]
    exact .bind ((hsaturation req rel hreq).weaken fun _ hx => hx.tierPriority tierLabel)
  | @tierPriority saturation _ tierLabel ih =>
    obtain ⟨req₀, hsaturation⟩ := ih
    refine ⟨req₀, fun req rel hreq => ?_⟩
    rw [consult]
    refine .bind ((hsaturation req rel hreq).weaken fun _ hx => ?_)
    refine (hx.weaken fun v hv => ?_).tierPriority tierLabel
    rw [hv]
    rintro ⟨⟩
  | @waitOnRefuse inner _ ih =>
    obtain ⟨req₀, hinner⟩ := ih
    refine ⟨req₀, fun req rel hreq => ?_⟩
    rw [consult]
    refine .bind ((hinner req rel hreq).weaken fun x hx => ?_)
    obtain ⟨⟨v, hv, hproceed⟩, hleaf⟩ := hx
    exact ⟨⟨v, by simp [GateReturn.waitOnRefuse, hv, hproceed], hproceed⟩, hleaf⟩
  | @composite gates gate hmem _ ih =>
    obtain ⟨req₀, hgate⟩ := ih
    refine ⟨req₀, fun req rel hreq => ?_⟩
    rw [consult]
    exact canReturn_consultChain hlocals (fun _ _ h hr => h.about hr) (fun _ _ _ hx => hx.before)
      (fun r c r' c' hx _ hr' => hx.after hr' fun v hv => hv) (fun _ _ _ hx => hx) hmem hgate
      rel.length hreq rel

end Completeness

/-- Local gates have room, as `CreateGate` demands.  A closed leaf keeps a tree closed, for every
request and whatever is answered, if and only if nowhere below a `tier-priority-admission` a refusal
can become `Wait` or `Drop`.  In any tree, a call in which no saturation gate has waited or dropped
does not continue if a leaf it has consulted has failed or given any verdict but `Continue`. -/
theorem closed_leaf_closes_tree {locals : ℕ → LocalGate} (hlocals : ∀ gate, 0 < (locals gate).limit)
    (g : Gate) :
    ((∀ req rel tr r c, (g.consult locals req rel).Path tr (r, c) →
        (∃ v ∈ c.leaves, goesOn v = false) →
        (g.apply locals req rel).Path tr r ∧ r.proceeds = false) ↔ ¬g.Leaks locals) ∧
    ∀ req rel tr r c, (g.consult locals req rel).Path tr (r, c) →
      (∀ v ∈ c.saturations, passesOn v = true) → (∃ v ∈ c.leaves, goesOn v = false) →
      (g.apply locals req rel).Path tr r ∧ r.proceeds = false := by
  refine ⟨⟨fun hclosed hleaks => ?_, fun hleaks req rel tr r c hp hleaf => ?_⟩,
    fun req rel tr r c hp hsat hleaf => ?_⟩
  · obtain ⟨req, hreq⟩ := hleaks.canReturn hlocals
    obtain ⟨tr, ⟨r, c⟩, hp, ⟨v, hv, hproceed⟩, hleaf⟩ := (hreq req [] (.refl req)).path
    have hcloses := (hclosed req [] tr r c hp hleaf).2
    rw [r.proceeds_eq, hv, goesOn, hproceed] at hcloses
    cases hcloses
  · refine ⟨(path_iff_consult locals).mpr ⟨c, hp⟩, ?_⟩
    obtain ⟨v, hv, hclosed⟩ := hleaf
    rw [← Bool.not_eq_true]
    exact fun hproceeds => hleaks
      (((g.consult_accounted req rel).path hp).leaks hproceeds v hv hclosed)
  · refine ⟨(path_iff_consult locals).mpr ⟨c, hp⟩, ?_⟩
    obtain ⟨v, hv, hclosed⟩ := hleaf
    rw [← Bool.not_eq_true]
    intro hproceeds
    have hopen : goesOn v = true :=
      (consult_closing locals g req rel).path hp hsat hproceeds v hv
    rw [hclosed] at hopen
    cases hopen

/-- A saturation gate that has no budget, behind an open gate.  Neither of the two can wait or drop
below `tier-priority-admission`. -/
theorem saturated_tier_refuses :
    let g := Gate.composite [.constOpen, .tierPriority (.budget 0) "tier"]
    ¬g.Leaks (fun _ => ⟨1, .blocking⟩) ∧
    (g.apply (fun _ => ⟨1, .blocking⟩) bareRequest []).Path [⟨.budget 0, (0 : ℚ)⟩]
      ⟨.ok .refuse, bareRequest, []⟩ ∧
    (⟨.ok .refuse, bareRequest, []⟩ : GateReturn).proceeds = false := by
  intro g
  have hp : (g.consult (fun _ => ⟨1, .blocking⟩) bareRequest []).Path [⟨.budget 0, (0 : ℚ)⟩]
      (⟨.ok .refuse, bareRequest, []⟩, ⟨[.ok .proceed, .ok .refuse], [.ok .refuse]⟩) :=
    .act _ (.done _)
  have htight : ¬(composite [.constOpen, .tierPriority (.budget 0) "tier"]).Leaks
      (fun _ => ⟨1, .blocking⟩) := by
    intro h
    cases h with
    | composite hmem h =>
      rcases mem_cons.mp hmem with rfl | hmem
      · cases h
      · obtain rfl := mem_singleton.mp hmem
        cases h with
        | saturation h => cases h
        | tierPriority h => cases h
  exact ⟨htight, (closed_leaf_closes_tree (fun _ => Int.one_pos) g).1.mpr htight _ _ _ _ _ hp
    ⟨.ok .refuse, mem_cons_of_mem _ mem_cons_self, rfl⟩⟩

/-- The same gate below `wait-on-refuse`, which waits, so that `tier-priority-admission` lets the
request through. -/
theorem waiting_saturation_opens :
    ((Gate.tierPriority (.waitOnRefuse (.budget 0)) "tier").consult (fun _ => ⟨1, .blocking⟩)
      bareRequest []).Path [⟨.budget 0, (0 : ℚ)⟩]
        (⟨.ok .proceed, bareRequest, []⟩, ⟨[.ok .refuse], [.ok .wait]⟩) ∧
    ((Gate.tierPriority (.waitOnRefuse (.budget 0)) "tier").apply (fun _ => ⟨1, .blocking⟩)
      bareRequest []).Path [⟨.budget 0, (0 : ℚ)⟩] ⟨.ok .proceed, bareRequest, []⟩ ∧
    goesOn (.ok .refuse) = false ∧
    (⟨.ok .proceed, bareRequest, []⟩ : GateReturn).proceeds = true :=
  ⟨.act _ (.done _), .act _ (.done _), rfl, rfl⟩

end LlmdAsync.FlowControl
