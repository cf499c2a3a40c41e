import LlmdAsync.Redis.Cancellation

/-!
# Cancellations that stay

A call of `CancelRequests` that has returned `nil` has left the token it read in the marker of the
request.  The token should stay there until the generation is cleaned up or submitted anew.  Two
races take it away: a cancellation that has read the token of an earlier generation and writes it
late, and a submission that has begun earlier, or is the cancelled one itself, and deletes the
marker late.  In runs without these (`orderly`) a cancellation stays (`cancellation_kept`).
-/

namespace LlmdAsync.Redis

open List ThreadSystem

/-- The generation has been cleaned up after it was read, or a later submission has begun. -/
def Lapsed (log : List MarkerEvent) (id token : String) : Prop :=
  Precedes log (.read id token) (.cleaned id token) ∨
    ∃ token', Precedes log (.submitted id token) (.submitted id token')

/-- A later submission is one of those in the history. -/
instance (log : List MarkerEvent) (id token : String) : Decidable (Lapsed log id token) :=
  @instDecidableOr _ _ inferInstance <| decidable_of_iff
    (log.any (fun e =>
      match e with
      | .submitted id' token' =>
        decide (id' = id ∧ Precedes log (.submitted id token) (.submitted id' token'))
      | _ => false) = true) <| by
    rw [List.any_eq_true]
    constructor
    · rintro ⟨e, -, he⟩
      cases e with
      | submitted id' token' =>
        obtain ⟨rfl, hp⟩ := of_decide_eq_true he
        exact ⟨token', hp⟩
      | _ => cases he
    · rintro ⟨token', hp⟩
      exact ⟨_, hp.right_mem, decide_eq_true ⟨rfl, hp⟩⟩

/-- No key expires.  A marker is only overwritten by a token that was not submitted earlier, and
only deleted by a submission that began later. -/
def orderly : Discipline MarkerAction ℕ Markers MarkerChoice MarkerOp MarkerEnv where
  act _ i _ s :=
    match i with
    | .setMarker id token => ∀ token' ∈ s.marker id,
      ¬ Precedes s.log (.submitted id token) (.submitted id token')
    | .submitRequest id token => ∀ token' ∈ s.marker id,
      Precedes s.log (.submitted id token') (.submitted id token)
    | .delMarker id token => ∀ token' ∈ s.marker id,
      Precedes s.log (.submitted id token') (.submitted id token)
    | _ => True
  start _ _ _ := True
  env e _ := ∀ key, e ≠ .expire key

instance (t : ℕ) (i : MarkerAction) (c : MarkerChoice) (s : Markers) :
    Decidable (orderly.act t i c s) := by
  cases i with
  | setMarker | submitRequest | delMarker => exact inferInstanceAs (Decidable (∀ _ ∈ _, _))
  | _ => exact isTrue trivial

/-- The token has been read and is the marker, unless that has lapsed. -/
structure Settled (s : Markers) (id token : String) : Prop where
  named : id ≠ ""
  read : .read id token ∈ s.log
  marked : s.marker id = some token ∨ Lapsed s.log id token

/-- All cancellations that have returned are settled. -/
def AllSettled (s : Markers) : Prop :=
  ∀ tokens, .returned tokens ∈ s.log → ∀ p ∈ tokens, Settled s p.1 p.2

/-- The others add to the history and leave what is settled. -/
def Leaves (_ : ℕ) (s s' : Markers) : Prop :=
  s.log <+: s'.log ∧ ∀ id token, Settled s id token → Settled s' id token

instance (t : ℕ) : IsPreorder Markers (Leaves t) where
  refl s := ⟨List.prefix_refl s.log, fun _ _ h => h⟩
  trans _ _ _ h h' := ⟨h.1.trans h'.1, fun id token hs => h'.2 id token (h.2 id token hs)⟩

/-! ### One step -/

section Step

variable {s s' : Markers} {id token : String}

lemma Lapsed.mono {log log' : List MarkerEvent} (h : Lapsed log id token) (hlog : log <+: log') :
    Lapsed log' id token :=
  h.imp (fun hc => hc.mono hlog) fun ⟨token', ht⟩ => ⟨token', ht.mono hlog⟩

lemma Settled.step (h : Settled s id token) (hlog : s.log <+: s'.log)
    (hmarker : s.marker id = some token →
      s'.marker id = some token ∨ Lapsed s'.log id token) : Settled s' id token where
  named := h.named
  read := hlog.subset h.read
  marked := h.marked.elim hmarker fun hl => .inr (hl.mono hlog)

lemma Settled.change {t : ℕ} {i : MarkerAction} {c : MarkerChoice} (hsound : s.Sound)
    (hi : i.Grounded s) (hok : orderly.act t i c s) (hs : s.Change i s')
    (h : Settled s id token) : Settled s' id token := by
  refine h.step hs.log fun hm => ?_
  cases hs with
  | submitRequest id' token' =>
    by_cases hid : id = id'
    · subst hid
      exact .inr (.inr ⟨token', hok token hm⟩)
    · refine .inl ?_
      rw [Markers.submitRequest, Markers.marker_setActive, Markers.marker_delMarker, if_neg hid, hm]
  | delMarker id' token' =>
    by_cases hid : id = id'
    · subst hid
      exact .inr (.inr ⟨token', hok token hm⟩)
    · rw [Markers.marker_delMarker, if_neg hid, hm]
      exact .inl rfl
  | setMarker id' token' =>
    rw [Markers.marker_setMarker]
    by_cases hid : id = id'
    · subst hid
      rw [if_pos rfl]
      by_cases heq : token' = token
      · exact .inl (congrArg some heq)
      · -- the token written was submitted too, and the condition excludes that it was earlier
        have hsub := (hsound.read h.read).left_mem
        have hsub' := (hsound.read hi).left_mem
        rcases Precedes.total hsub hsub' (by simpa using Ne.symm heq) with hlater | hearlier
        · exact .inr (.inr ⟨token', hlater⟩)
        · exact absurd hearlier (hok token hm)
    · rw [if_neg hid, hm]
      exact .inl rfl
  | deleteIfToken id' token' key =>
    by_cases hdel : requestCancellationKey id = key ∧ Hash.hget s.keys key = some token'
    · -- the marker of the generation goes, in its own cleanup
      obtain ⟨rfl, hkey⟩ := hdel
      obtain rfl : token = token' := Option.some.inj (hm.symm.trans hkey)
      obtain rfl : id = id' := by
        rcases hi with hactive | hcancel
        · exact absurd hactive (cancellationKey_ne_activeKey id id')
        · exact requestCancellationKey_inj.mp hcancel
      refine .inr (.inl ?_)
      rw [Markers.note, Markers.log_deleteIfToken]
      exact Precedes.concat h.read
    · refine .inl ?_
      rw [Markers.marker_note]
      exact (Markers.hget_deleteIfToken key _).trans ((if_neg hdel).trans hm)
  | setActive id' token' => exact .inl (Markers.marker_setActive.trans hm)
  | _ => exact .inl hm

lemma settled_setMarker (hid : id ≠ "") (h : .read id token ∈ s.log) :
    Settled (s.set (requestCancellationKey id) token) id token where
  named := hid
  read := h
  marked := .inl (by rw [Markers.marker_setMarker, if_pos rfl])

/-- Only `CancelRequests` returns. -/
def MarkerAction.Silent (i : MarkerAction) : Prop := ∀ tokens, i ≠ .returned tokens

lemma returned_mem {i : MarkerAction} (hi : i.Silent) (hs : s.Change i s')
    {tokens : List (String × String)} (h : .returned tokens ∈ s'.log) :
    .returned tokens ∈ s.log := by
  have hnote : ∀ {s₀ : Markers} {e : MarkerEvent}, s₀.log = s.log → e ≠ .returned tokens →
      .returned tokens ∈ (s₀.note e).log → .returned tokens ∈ s.log := by
    intro s₀ e hs₀ he hmem
    rcases mem_append.mp hmem with hmem | hmem
    · exact hs₀ ▸ hmem
    · exact absurd (mem_singleton.mp hmem).symm he
  cases hs with
  | newRequestToken id token | read id token => exact hnote rfl (by simp) h
  | deleteIfToken id token key => exact hnote (Markers.log_deleteIfToken key) (by simp) h
  | returned tokens' => exact absurd rfl (hi tokens')
  | _ => exact h

end Step

/-! ### Whole calls -/

/-- Orderly runs, with what is known about all runs. -/
def known : Discipline MarkerAction ℕ Markers MarkerChoice MarkerOp MarkerEnv :=
  (orderly.performing fun _ i s => i.Grounded s).assuming Markers.Sound

/-- The code keeps all cancellations. -/
abbrev Keeping (t : ℕ) (p : MarkerCode Unit) (s : Markers) : Prop :=
  markerSystem.Safe known AllSettled Leaves (fun _ _ _ => True) t p (fun _ _ => True) s

section Calls

variable {t : ℕ} {s s' : Markers} {i : MarkerAction} {c : MarkerChoice} {r : i.Reply}

lemma leaves_exec (hok : known.act t i c s) (hexec : s.exec i c = some (r, s')) (u : ℕ) :
    Leaves u s s' := by
  obtain ⟨⟨horder, hground⟩, hsound⟩ := hok
  have hs := Markers.exec_change hexec
  exact ⟨hs.log, fun id token h => h.change hsound hground horder hs⟩

lemma keeps_exec (hi : i.Silent) (hok : known.act t i c s) (hall : AllSettled s)
    (hexec : s.exec i c = some (r, s')) : ThreadSystem.Keeps AllSettled Leaves t s s' := by
  have hleaves := leaves_exec hok hexec
  refine ⟨fun tokens hmem p hp => ?_, fun u _ => hleaves u⟩
  exact (hleaves t).2 _ _ (hall tokens (returned_mem hi (Markers.exec_change hexec) hmem) p hp)

lemma keeping_of_silent {p : MarkerCode Unit} (hp : p.Always MarkerAction.Silent) :
    Keeping t p s :=
  ThreadSystem.Safe.of_always (A := fun _ => True) (fun _ _ _ _ => trivial)
    (fun _ hi _ _ _ _ _ hall hok hexec =>
      ⟨trivial, keeps_exec hi hok hall hexec, trivial⟩) hp trivial

lemma silent_submitRequest (cluster : Bool) (id : String) :
    (submitRequest cluster id).Always MarkerAction.Silent := by
  refine ⟨(nofun), fun token => ?_⟩
  cases token with
  | none => exact trivial
  | some token =>
    cases cluster with
    | false => exact ⟨(nofun), fun _ => trivial⟩
    | true =>
      refine ⟨(nofun), fun delFirst => ?_⟩
      cases delFirst with
      | _ =>
        refine ⟨(nofun), fun _ => ?_⟩
        exact ⟨(nofun), fun _ => trivial⟩

lemma silent_cleanupRequestState (id token : String) :
    (cleanupRequestState id token).Always MarkerAction.Silent := by
  unfold cleanupRequestState
  split
  · exact trivial
  · refine ⟨(nofun), fun r => ?_⟩
    cases r with
    | true => exact ⟨(nofun), fun _ => trivial⟩
    | false => exact trivial

lemma keeping_cancelRequests (ids : List String) {tokens : List (String × String)}
    (h : ∀ p ∈ tokens, Settled s p.1 p.2) : Keeping t (cancelRequests ids tokens) s := by
  induction ids generalizing tokens s with
  | nil =>
    intro s₁ c r s₂ hR hall hok hexec
    have hleaves := leaves_exec hok hexec
    refine ⟨trivial, ⟨fun tokens' hmem p hp => (hleaves t).2 _ _ ?_, fun u _ => hleaves u⟩,
      trivial⟩
    cases hexec
    rcases mem_append.mp hmem with hmem | hmem
    · exact hall tokens' hmem p hp
    · cases mem_singleton.mp hmem
      exact hR.2 _ _ (h p hp)
  | cons id ids ih =>
    rw [cancelRequests]
    split
    · exact ih h
    next hid =>
      intro s₁ c r s₂ hR hall hok hexec
      have hread := Markers.exec_recorded (i := .getActive id) (c := c) hexec
      refine ⟨trivial, keeps_exec (fun _ h => by cases h) hok hall hexec, ?_⟩
      have hleaves := leaves_exec hok hexec t
      have h₂ : ∀ p ∈ tokens, Settled s₂ p.1 p.2 := fun p hp =>
        hleaves.2 _ _ (hR.2 _ _ (h p hp))
      rcases r with _ | _ | active
      · exact trivial
      · exact ih h₂
      · intro s₃ c' r' s₄ hR' hall' hok' hexec'
        refine ⟨trivial, keeps_exec (fun _ h => by cases h) hok' hall' hexec', ?_⟩
        cases r' with
        | false => exact trivial
        | true =>
          have hleaves' := leaves_exec hok' hexec' t
          refine ih fun p hp => ?_
          rcases mem_append.mp hp with hp | hp
          · exact hleaves'.2 _ _ (hR'.2 _ _ (h₂ p hp))
          · cases mem_singleton.mp hp
            rcases Markers.write_eq_some hexec' with rfl | ⟨hfalse, -⟩
            · exact settled_setMarker hid (hR'.1.subset (hread active rfl))
            · cases hfalse

end Calls

/-- In every orderly interleaving of submissions, cancellations and cleanups: once a
`CancelRequests` that has read a token of the request has returned `nil`, the generation is
cancelled until it is cleaned up or a later `SubmitRequest` for the request begins. -/
theorem cancellation_kept {P : Pool MarkerAction MarkerAction.Reply ℕ Markers}
    (h : markerSystem.Reachable orderly .initial P) {tokens : List (String × String)}
    (hreturned : .returned tokens ∈ P.state.log) {id token : String}
    (hread : (id, token) ∈ tokens) :
    P.state.isCancelled id token = true ∨ Lapsed P.state.log id token := by
  have hknown : markerSystem.Reachable known .initial P :=
    (reachable_grounded h).assuming fun _ => reachable_sound
  have hall : AllSettled P.state := by
    refine (ThreadSystem.Reachable.safe (I := AllSettled) (R := Leaves) (G := fun _ _ _ => True)
      (E := fun _ _ => True) (fun _ _ _ _ _ => trivial)
      ⟨fun _ hmem => (not_mem_nil hmem).elim, fun _ => trivial⟩ ?_ ?_ hknown).1
    · intro t o s _ _ _ _
      cases o with
      | submit cluster id => exact keeping_of_silent (silent_submitRequest cluster id)
      | cancel ids => exact keeping_cancelRequests ids fun _ hp => (not_mem_nil hp).elim
      | cleanup id token => exact keeping_of_silent (silent_cleanupRequestState id token)
    · intro e s s' hs hok henv
      cases e with
      | expire key => exact absurd rfl (hok.1 key)
      | crash u =>
        cases henv
        refine ⟨hs, fun t => ?_⟩
        split
        · exact trivial
        · exact refl_of (Leaves t) s
  have hsettled := hall tokens hreturned (id, token) hread
  refine hsettled.marked.imp_left fun hm => ?_
  have hsound := reachable_sound h
  have htoken := hsound.drawn (hsound.read hsettled.read).left_mem
  exact Markers.isCancelled_iff.mpr ⟨hsettled.named, htoken, hm⟩

/-! ### Runs -/

def orderlyStep (P : Pool MarkerAction MarkerAction.Reply ℕ Markers) :
    Label ℕ MarkerChoice MarkerOp MarkerEnv → Bool
  | .act t c =>
    match P.prog t with
    | some (.act i _) => decide (orderly.act t i c P.state)
    | _ => true
  | .env (.expire _) => false
  | _ => true

lemma allowed_of_orderlyStep (P : Pool MarkerAction MarkerAction.Reply ℕ Markers)
    (l : Label ℕ MarkerChoice MarkerOp MarkerEnv) (h : orderlyStep P l = true) :
    ThreadSystem.Allowed orderly P l := by
  cases l with
  | start t o | finish t => exact trivial
  | act t c =>
    intro i k hprog
    rw [orderlyStep, hprog] at h
    exact of_decide_eq_true h
  | env e =>
    cases e with
    | expire key => cases h
    | crash u =>
      intro key hk
      cases hk

/-- A request is submitted, submitted anew, and cancelled twice. -/
def keptRun : List (Label ℕ MarkerChoice MarkerOp MarkerEnv) :=
  [.start 0 (.submit false "r"), .act 0 (.token "a"), .act 0 .answered,
    .start 1 (.cancel ["r"]), .act 1 .answered, .act 1 .answered, .act 1 .answered,
    .start 2 (.submit true "r"), .act 2 (.token "b"), .act 2 (.delFirst true), .act 2 .answered,
    .act 2 .answered,
    .start 3 (.cancel ["r"]), .act 3 .answered, .act 3 .lost,
    .start 4 (.cancel ["r"]), .act 4 .answered, .act 4 .answered, .act 4 .answered]

theorem keptRun_kept :
    let s := (markerSystem.run (idle .initial) keptRun).state
    ¬ Lapsed s.log "r" "b" ∧ s.isCancelled "r" "b" = true := by
  intro s
  have hlapsed : ¬ Lapsed s.log "r" "b" := by decide +kernel
  have hreach : markerSystem.Reachable orderly .initial
      (markerSystem.run (idle .initial) keptRun) :=
    reachable_run_of_passes _ allowed_of_orderlyStep (by decide +kernel)
  have hreturned : .returned [("r", "b")] ∈ s.log := by decide +kernel
  exact ⟨hlapsed, (cancellation_kept hreach hreturned mem_cons_self).resolve_right hlapsed⟩

/-- A cancellation reads token `a` and is held up.  The request is submitted anew with token `b` and
cancelled.  Then the first cancellation writes `a`. -/
def lateCancel : List (Label ℕ MarkerChoice MarkerOp MarkerEnv) :=
  [.start 0 (.submit false "r"), .act 0 (.token "a"), .act 0 .answered,
    .start 1 (.cancel ["r"]), .act 1 .answered,
    .start 2 (.submit false "r"), .act 2 (.token "b"), .act 2 .answered,
    .start 3 (.cancel ["r"]), .act 3 .answered, .act 3 .answered, .act 3 .answered,
    .act 1 .answered]

/-- A submission draws token `a` and is held up.  The request is submitted with token `b` and
cancelled.  Then the script of the first submission runs. -/
def lateSubmit : List (Label ℕ MarkerChoice MarkerOp MarkerEnv) :=
  [.start 0 (.submit false "r"), .act 0 (.token "a"),
    .start 2 (.submit false "r"), .act 2 (.token "b"), .act 2 .answered,
    .start 3 (.cancel ["r"]), .act 3 .answered, .act 3 .answered, .act 3 .answered,
    .act 0 .answered]

/-- In a cluster, the active token `b` is set before the marker is deleted, and the request is
cancelled in between. -/
def lateDelete : List (Label ℕ MarkerChoice MarkerOp MarkerEnv) :=
  [.start 2 (.submit true "r"), .act 2 (.token "b"), .act 2 (.delFirst false), .act 2 .answered,
    .start 3 (.cancel ["r"]), .act 3 .answered, .act 3 .answered, .act 3 .answered,
    .act 2 .answered]

/-- `CancelRequests` has returned `nil` after reading token `b`, nothing was cleaned up, no later
submission has begun, and the generation is not cancelled. -/
def CancellationLost (s : Markers) : Prop :=
  .returned [("r", "b")] ∈ s.log ∧ ¬ Lapsed s.log "r" "b" ∧ s.isCancelled "r" "b" = false

instance : DecidablePred CancellationLost := fun _ => inferInstanceAs (Decidable (_ ∧ _))

/-- Each of these runs loses the cancellation. -/
theorem late_writes_lose_cancellation :
    CancellationLost (markerSystem.run (ThreadSystem.idle .initial) lateCancel).state ∧
      CancellationLost (markerSystem.run (ThreadSystem.idle .initial) lateSubmit).state ∧
      CancellationLost (markerSystem.run (ThreadSystem.idle .initial) lateDelete).state := by
  decide +kernel

end LlmdAsync.Redis
