import LlmdAsync.MergePolicy.Scheduler

/-!
# Headers

The headers that the merge policies give a request (`internal/header`, `internal/fairness`).  A
header map is a function, and the headers of the caller are listed in the order in which `range`
visits them.  `strings.EqualFold` compares names character by character, and `fold` is the same for
characters that it takes for equal.
-/

namespace LlmdAsync.MergePolicy

open FlowControl Function

variable (fold : Char → Char) (valid : String → Bool)

/-- What `strings.EqualFold` compares. -/
def folded (name : String) : List Char := name.toList.map fold

/-- A header map. -/
abbrev Headers := String → Option String

/-- `Set`. -/
def Headers.set (headers : Headers) (name value : String) : Headers := fun k =>
  if k = name then some value
  else if folded fold k = folded fold name then none
  else headers k

/-- `Set` of one header after the other. -/
def Headers.setAll (headers : Headers) (es : List (String × String)) : Headers :=
  es.foldl (fun h e => h.set fold e.1 e.2) headers

/-- `Stamper`. -/
structure Stamper where
  header : String
  metadataAttribute : String

/-- The header that `Stamp` sets; `valid` is `httpguts.ValidHeaderFieldValue`. -/
def Stamper.stamp (s : Stamper) (ir : GateRequest) : List (String × String) :=
  let id := (Hash.hget ir.metadata s.metadataAttribute).getD ""
  if s.header = "" ∨ id = "" ∨ 256 < id.utf8ByteSize ∨ valid id = false then []
  else [(s.header, id)]

/-- `laneKey`. -/
def laneKey (ir : GateRequest) (tierLabel : String) : String :=
  let label := (Hash.hget ir.labels tierLabel).getD ""
  let tier := if label = tierInteractive ∨ label = tierAsync then label else tierBatch
  (if ir.getClassification = classificationReserved then "reserved" else "overflow") ++ "-" ++ tier

/-- The policies, with what they read here. -/
inductive HeaderPolicy where
  | randomRobin (fairness : Stamper)
  | tierPriority (fairness : Stamper) (priorityHeader tierLabel objectiveHeader : String)
    (laneObjectives : Hash String String)

namespace HeaderPolicy

def fairness : HeaderPolicy → Stamper
  | randomRobin fairness => fairness
  | tierPriority fairness .. => fairness

/-- The names of the headers that the configuration has stamped. -/
def names : HeaderPolicy → List String
  | randomRobin fairness => [fairness.header].filter (· ≠ "")
  | tierPriority fairness priorityHeader _ objectiveHeader laneObjectives =>
    [fairness.header, priorityHeader].filter (· ≠ "") ++
      if laneObjectives.rows = [] then [] else [objectiveHeader]

/-- The headers that the caller may override. -/
def defaults (objective : String) : HeaderPolicy → Headers
  | randomRobin _ =>
    let headers := Headers.set fold (fun _ => none) "Content-Type" "application/json"
    if objective = "" then headers else headers.set fold "x-gateway-inference-objective" objective
  | tierPriority .. =>
    let headers := update (fun _ => none) "Content-Type" (some "application/json")
    if objective = "" then headers
    else update headers "x-gateway-inference-objective" (some objective)

/-- The headers that are set after those of the caller. -/
def stamps (ir : GateRequest) : HeaderPolicy → List (String × String)
  | randomRobin fairness => fairness.stamp valid ir
  | tierPriority fairness priorityHeader tierLabel objectiveHeader laneObjectives =>
    fairness.stamp valid ir ++
      (if priorityHeader = "" then []
        else [(priorityHeader, toString (getPriorityIndex ir tierLabel).val)]) ++
      match Hash.hget laneObjectives (laneKey ir tierLabel) with
      | some objective => if objective = "" then [] else [(objectiveHeader, objective)]
      | none => []

/-- The headers of a message: `stampHeaders`, and the same in `MergeRequestChannels`. -/
def headers (p : HeaderPolicy) (objective : String) (reqHeaders : List (String × String))
    (ir : GateRequest) : Headers :=
  ((p.defaults fold objective).setAll fold reqHeaders).setAll fold (p.stamps valid ir)

end HeaderPolicy

variable {fold}

namespace Headers

variable {h : Headers} {es : List (String × String)}

variable (fold) in
/-- No two names are equal for `EqualFold`. -/
def Unique (h : Headers) : Prop :=
  ∀ k k', h k ≠ none → h k' ≠ none → folded fold k = folded fold k' → k = k'

lemma set_of_ne {k name value : String} (hk : folded fold k ≠ folded fold name) :
    h.set fold name value k = h k := by
  have hne : k ≠ name := fun e => hk (congrArg _ e)
  rw [set, if_neg hne, if_neg hk]

lemma Unique.set (hu : h.Unique fold) (name value : String) :
    (h.set fold name value).Unique fold := by
  intro k k' hk hk' heq
  by_cases hn : folded fold k = folded fold name
  · have hname : ∀ j, h.set fold name value j ≠ none → folded fold j = folded fold name →
        j = name := by
      intro j hj hfold
      by_contra hne
      exact hj (by rw [Headers.set, if_neg hne, if_pos hfold])
    rw [hname k hk hn, hname k' hk' (heq ▸ hn)]
  · rw [set_of_ne hn] at hk
    rw [set_of_ne (heq ▸ hn)] at hk'
    exact hu k k' hk hk' heq

lemma Unique.setAll (hu : h.Unique fold) (es : List (String × String)) :
    (h.setAll fold es).Unique fold := by
  induction es generalizing h with
  | nil => exact hu
  | cons e es ih => exact ih (hu.set e.1 e.2)

lemma setAll_of_ne {k : String} (hk : ∀ e ∈ es, folded fold k ≠ folded fold e.1) :
    h.setAll fold es k = h k := by
  induction es generalizing h with
  | nil => rfl
  | cons e es ih =>
    obtain ⟨he, hes⟩ := List.forall_mem_cons.mp hk
    exact (ih hes).trans (set_of_ne he)

variable (h) in
lemma exists_setAll {e : String × String} (he : e ∈ es) :
    ∃ e' ∈ es, folded fold e'.1 = folded fold e.1 ∧ h.setAll fold es e'.1 = some e'.2 := by
  -- The last entry stands; from the front, an entry may still be replaced.
  induction es using List.reverseRecOn with
  | nil => cases he
  | append_singleton es last ih =>
    have hset : h.setAll fold (es ++ [last]) = (h.setAll fold es).set fold last.1 last.2 :=
      List.foldl_concat ..
    by_cases hlast : folded fold last.1 = folded fold e.1
    · exact ⟨last, by simp, hlast, by rw [hset, Headers.set, if_pos rfl]⟩
    · have hmem : e ∈ es := by grind
      obtain ⟨e', he', hfold, hvalue⟩ := ih hmem
      refine ⟨e', List.mem_append_left _ he', hfold, ?_⟩
      rw [hset, set_of_ne (hfold ▸ Ne.symm hlast), hvalue]

end Headers

lemma HeaderPolicy.unique_defaults (p : HeaderPolicy) (objective : String) :
    (p.defaults fold objective).Unique fold := by
  have hempty : Headers.Unique fold (fun _ => none) := fun _ _ hk => absurd rfl hk
  cases p with
  | randomRobin =>
    simp only [defaults]
    split
    · exact hempty.set _ _
    · exact (hempty.set _ _).set _ _
  | tierPriority =>
    have hne : folded fold "Content-Type" ≠ folded fold "x-gateway-inference-objective" := by
      intro h
      simpa [folded] using congrArg List.length h
    intro k k'
    simp only [defaults]
    split <;> grind [update_apply]

lemma Stamper.stamp_sublist (s : Stamper) (ir : GateRequest) :
    ((s.stamp valid ir).map Prod.fst).Sublist ([s.header].filter (· ≠ "")) := by
  unfold stamp
  dsimp only
  split
  · exact List.nil_sublist _
  next h =>
    have hne : s.header ≠ "" := fun he => h (.inl he)
    simp [hne]

/-- Only configured names are stamped. -/
lemma HeaderPolicy.stamps_sublist (p : HeaderPolicy) (ir : GateRequest) :
    ((p.stamps valid ir).map Prod.fst).Sublist p.names := by
  cases p with
  | randomRobin s => exact s.stamp_sublist valid ir
  | tierPriority s priorityHeader tierLabel objectiveHeader laneObjectives =>
    have hsplit : [s.header, priorityHeader].filter (· ≠ "") =
        [s.header].filter (· ≠ "") ++ [priorityHeader].filter (· ≠ "") :=
      List.filter_append [s.header] [priorityHeader]
    simp only [stamps, names, List.map_append, hsplit]
    refine ((s.stamp_sublist valid ir).append ?_).append ?_
    · split
      · exact List.nil_sublist _
      next hne => simp [hne]
    · split
      next objective hget =>
        have hrows : laneObjectives.rows ≠ [] := List.ne_nil_of_mem
          ((Hash.mem_rows_iff (r := (laneKey ir tierLabel, objective))).mpr hget)
        rw [if_neg hrows]
        split
        · exact List.nil_sublist _
        · exact List.Sublist.refl _
      · exact List.nil_sublist _

/-- If there is an identity to stamp, it is the value of the tenant attribute. -/
lemma HeaderPolicy.mem_stamps (p : HeaderPolicy) {ir : GateRequest}
    (h : p.fairness.stamp valid ir ≠ []) : ∃ id,
      Hash.hget ir.metadata p.fairness.metadataAttribute = some id ∧
      (p.fairness.header, id) ∈ p.stamps valid ir := by
  have hfair : ∀ e ∈ p.fairness.stamp valid ir, e ∈ p.stamps valid ir := by
    cases p with
    | randomRobin s => exact fun _ he => he
    | tierPriority s => exact fun _ he => List.mem_append_left _ (List.mem_append_left _ he)
  unfold Stamper.stamp at h hfair
  cases hget : Hash.hget ir.metadata p.fairness.metadataAttribute with
  | none => simp [hget] at h
  | some id =>
    refine ⟨id, rfl, hfair _ ?_⟩
    simp only [hget, Option.getD_some] at h ⊢
    split at h
    · exact absurd rfl h
    next hc =>
      rw [if_neg hc]
      exact List.mem_singleton_self _

/-- Take configured names that are different up to case.  Whatever headers the caller sends: no two
names are equal up to case; what the policy sets after the headers of the caller stands; an identity
that can be stamped is the value of the fairness header, the same for all requests with the same
metadata; and any other name that the caller sends keeps a value that the caller sent for it. -/
theorem stamping_not_bypassed (p : HeaderPolicy) (hnames : (p.names.map (folded fold)).Nodup)
    (objective : String) (reqHeaders : List (String × String)) (ir : GateRequest) :
    let h := p.headers fold valid objective reqHeaders ir
    h.Unique fold ∧ (∀ s ∈ p.stamps valid ir, h s.1 = some s.2) ∧
      (p.fairness.stamp valid ir ≠ [] →
        h p.fairness.header = Hash.hget ir.metadata p.fairness.metadataAttribute ∧
        ∀ objective' reqHeaders' ir', ir'.metadata = ir.metadata →
          p.headers fold valid objective' reqHeaders' ir' p.fairness.header =
            h p.fairness.header) ∧
      ∀ e ∈ reqHeaders, (∀ s ∈ p.stamps valid ir, folded fold e.1 ≠ folded fold s.1) →
        ∃ e' ∈ reqHeaders, folded fold e'.1 = folded fold e.1 ∧ h e'.1 = some e'.2 := by
  have hstands : ∀ objective reqHeaders ir, ∀ s ∈ p.stamps valid ir,
      p.headers fold valid objective reqHeaders ir s.1 = some s.2 := by
    intro objective reqHeaders ir s hs
    have hnodup : ((p.stamps valid ir).map (folded fold ·.1)).Nodup := by
      have hsub := (p.stamps_sublist valid ir).map (folded fold)
      rw [List.map_map] at hsub
      exact hnames.sublist hsub
    obtain ⟨s', hs', hfold, hvalue⟩ :=
      ((p.defaults fold objective).setAll fold reqHeaders).exists_setAll hs
    exact List.inj_on_of_nodup_map hnodup hs' hs hfold ▸ hvalue
  refine ⟨((p.unique_defaults objective).setAll _).setAll _, hstands _ _ _, fun hid => ?_, ?_⟩
  · have hfair : ∀ objective' reqHeaders' ir', ir'.metadata = ir.metadata →
        p.headers fold valid objective' reqHeaders' ir' p.fairness.header =
          Hash.hget ir.metadata p.fairness.metadataAttribute := by
      intro objective' reqHeaders' ir' hsame
      have hid' : p.fairness.stamp valid ir' ≠ [] := by
        unfold Stamper.stamp at hid ⊢
        rwa [hsame]
      obtain ⟨id, hget, hmem⟩ := p.mem_stamps valid hid'
      rw [← hsame, hget]
      exact hstands objective' reqHeaders' ir' _ hmem
    exact ⟨hfair _ _ _ rfl, fun _ _ _ hsame => (hfair _ _ _ hsame).trans (hfair _ _ _ rfl).symm⟩
  · intro e he hne
    obtain ⟨e', he', hfold, hvalue⟩ := (p.defaults fold objective).exists_setAll he
    exact ⟨e', he', hfold, (Headers.setAll_of_ne (hfold ▸ hne)).trans hvalue⟩

/-- A request of a tenant that claims to be another one, under two spellings. -/
def impostor : GateRequest := ⟨"r", Hash.hset .empty "userid" "alice", .empty⟩

/-- The policy with a fairness and a priority header. -/
def tiered : HeaderPolicy := .tierPriority ⟨"x-fairness", "userid"⟩ "x-priority" "tier" "" .empty

/-- The fairness header has the identity in the metadata, for this and any other list of headers. -/
theorem impostor_stamped :
    let sent := [("X-Fairness", "bob"), ("X-FAIRNESS", "eve")]
    tiered.headers Char.toLower (fun _ => true) "" sent impostor "x-fairness" = some "alice" ∧
      tiered.headers Char.toLower (fun _ => true) "" [] impostor "x-fairness" = some "alice" := by
  intro sent
  obtain ⟨-, -, hfair, -⟩ := @stamping_not_bypassed Char.toLower (fun _ => true) tiered
    (by decide +kernel) "" sent impostor
  obtain ⟨hvalue, hsame⟩ := hfair (by decide +kernel)
  have hget : Hash.hget impostor.metadata "userid" = some "alice" := by decide +kernel
  exact ⟨hvalue.trans hget, (hsame "" [] impostor rfl).trans (hvalue.trans hget)⟩

end LlmdAsync.MergePolicy
