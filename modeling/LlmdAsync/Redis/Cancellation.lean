import LlmdAsync.Foundation.Hash
import LlmdAsync.Foundation.Paths

/-!
# Cancellation markers

For every request ID Redis holds the token of the generation submitted last, and, once
`CancelRequests` was called, the token of the generation that is cancelled.  `SubmitRequest` and
`CancelRequests` of `producer/redis_sortedset_producer.go` write these markers and
`cleanupRequestStateByIDAndToken` of `pkg/redis/sortedset_impl.go` removes them, with single
commands and scripts between which the others may run.  In cluster mode the commands of
`enqueueCluster` go to the nodes of their keys and run in either order.

Whatever the interleaving, a generation is only cancelled by a call that has read its token
(`cancellation_isolated`).  The sequence counter, the queue and the payload key are left out: they
have keys of their own.
-/

namespace LlmdAsync.Redis

open List Hash

/-! ### The order of events -/

/-- In the log, the first event is followed by the second. -/
def Precedes {α : Type} (log : List α) (a b : α) : Prop := [a, b].Sublist log

instance {α : Type} [DecidableEq α] (log : List α) (a b : α) : Decidable (Precedes log a b) :=
  inferInstanceAs (Decidable ([a, b].Sublist log))

namespace Precedes

variable {α : Type} {log : List α} {a b : α}

lemma mono {log' : List α} (h : Precedes log a b) (hlog : log <+: log') : Precedes log' a b :=
  h.trans hlog.sublist

lemma concat (h : a ∈ log) : Precedes (log ++ [b]) a b :=
  List.Sublist.append (singleton_sublist.mpr h) (List.Sublist.refl [b])

lemma left_mem (h : Precedes log a b) : a ∈ log := h.subset mem_cons_self

lemma right_mem (h : Precedes log a b) : b ∈ log :=
  h.subset (mem_cons_of_mem _ mem_cons_self)

lemma total (ha : a ∈ log) (hb : b ∈ log) (hne : a ≠ b) : Precedes log a b ∨ Precedes log b a := by
  induction log with
  | nil => cases ha
  | cons e log ih =>
    rcases mem_cons.mp ha with rfl | ha'
    · have hb : b ∈ log := (mem_cons.mp hb).resolve_left (Ne.symm hne)
      exact .inl (List.Sublist.cons_cons a (singleton_sublist.mpr hb))
    · by_cases he : b = e
      · subst he
        exact .inr (List.Sublist.cons_cons b (singleton_sublist.mpr ha'))
      · have hb' : b ∈ log := (mem_cons.mp hb).resolve_left he
        exact (ih ha' hb').imp (fun h => h.cons e) fun h => h.cons e

end Precedes

/-! ### Keys and their history -/

/-- `RequestCancellationKey`. -/
def requestCancellationKey (requestID : String) : String := "request-cancel:" ++ requestID

/-- `RequestActiveTokenKey`. -/
def requestActiveTokenKey (requestID : String) : String := "request-active:" ++ requestID

/-- What happened to the markers, as far as it is reasoned about. -/
inductive MarkerEvent where
  /-- A `SubmitRequest` has begun, with this token. -/
  | submitted (id token : String)
  /-- A `CancelRequests` has read this token as the active one. -/
  | read (id token : String)
  /-- A `CancelRequests` that has read these tokens has returned `nil`. -/
  | returned (tokens : List (String × String))
  /-- A script of the cleanup of this generation has run. -/
  | cleaned (id token : String)
deriving DecidableEq, Repr

/-- The markers of all requests, with their history. -/
structure Markers where
  keys : Hash String String
  log : List MarkerEvent

namespace Markers

def initial : Markers := ⟨.empty, []⟩

/-- The token of the generation submitted last. -/
def active (s : Markers) (id : String) : Option String :=
  Hash.hget s.keys (requestActiveTokenKey id)

/-- The token of the generation that is cancelled. -/
def marker (s : Markers) (id : String) : Option String :=
  Hash.hget s.keys (requestCancellationKey id)

def note (s : Markers) (e : MarkerEvent) : Markers := { s with log := s.log ++ [e] }

/-- `SET`. -/
def set (s : Markers) (key token : String) : Markers :=
  { s with keys := Hash.hset s.keys key token }

/-- `DEL`. -/
def del (s : Markers) (key : String) : Markers := { s with keys := Hash.hdel s.keys key }

/-- `deleteIfTokenScript`. -/
def deleteIfToken (s : Markers) (key token : String) : Markers :=
  if Hash.hget s.keys key = some token then s.del key else s

/-- The part of `submitRequestScript` that concerns the markers. -/
def submitRequest (s : Markers) (id token : String) : Markers :=
  (s.del (requestCancellationKey id)).set (requestActiveTokenKey id) token

/-- The token has been drawn before. -/
def drawn (s : Markers) (token : String) : Bool :=
  s.log.any fun e =>
    match e with
    | .submitted _ token' => token' = token
    | _ => false

/-- `IsCancelled`. -/
def isCancelled (s : Markers) (requestID requestToken : String) : Bool :=
  if requestID = "" ∨ requestToken = "" then false
  else
    match s.marker requestID with
    | none => false
    | some token => token = requestToken

end Markers

/-! ### Producers and dispatchers -/

/-- The steps of the code.  The request on whose behalf a command is run is given with it. -/
inductive MarkerAction where
  /-- `newRequestToken`. -/
  | newRequestToken (id : String)
  | submitRequest (id token : String)
  /-- Which command of the pipeline comes first. -/
  | pipeline
  /-- `DEL` of the cancellation marker in the pipeline. -/
  | delMarker (id token : String)
  /-- `SET` of the active token in the pipeline. -/
  | setActive (id token : String)
  | getActive (id : String)
  | setMarker (id token : String)
  | deleteIfToken (id token key : String)
  /-- `CancelRequests` returns `nil`. -/
  | returned (tokens : List (String × String))

/-- What they answer.  A command that writes answers whether there was no error, and `none` is an
error where something is read. -/
@[reducible] def MarkerAction.Reply : MarkerAction → Type
  | .newRequestToken _ => Option String
  | .getActive _ => Option (Option String)
  | .returned _ => Unit
  | _ => Bool

/-- What the code does not determine. -/
inductive MarkerChoice where
  /-- The command runs and is answered. -/
  | answered
  /-- The command runs, but its answer is lost. -/
  | lost
  /-- The command does not run. -/
  | failed
  /-- The token drawn. -/
  | token (token : String)
  /-- The marker is deleted before the active token is set. -/
  | delFirst (b : Bool)
deriving DecidableEq, Repr

/-- A command that writes. -/
def MarkerChoice.write (c : MarkerChoice) (s s' : Markers) : Option (Bool × Markers) :=
  match c with
  | .answered => some (true, s')
  | .lost => some (false, s')
  | .failed => some (false, s)
  | _ => none

def Markers.exec (i : MarkerAction) (c : MarkerChoice) (s : Markers) : Option (i.Reply × Markers) :=
  match i with
  | .newRequestToken id =>
    match c with
    | .token token =>
      if token = "" ∨ s.drawn token = true then none
      else some (some token, s.note (.submitted id token))
    | .failed => some (none, s)
    | _ => none
  | .submitRequest id token => c.write s (s.submitRequest id token)
  | .pipeline =>
    match c with
    | .delFirst b => some (b, s)
    | _ => none
  | .delMarker id _ => c.write s (s.del (requestCancellationKey id))
  | .setActive id token => c.write s (s.set (requestActiveTokenKey id) token)
  | .getActive id =>
    match c with
    | .answered =>
      match s.active id with
      | none => some (some none, s)
      | some token => some (some (some token), s.note (.read id token))
    | .lost => some (none, s)
    | .failed => some (none, s)
    | _ => none
  | .setMarker id token => c.write s (s.set (requestCancellationKey id) token)
  | .deleteIfToken id token key =>
    c.write s ((s.deleteIfToken key token).note (.cleaned id token))
  | .returned tokens => some ((), s.note (.returned tokens))

abbrev MarkerCode (α : Type) := Prog MarkerAction MarkerAction.Reply α

abbrev MarkerAction.take (i : MarkerAction) : MarkerCode i.Reply := Prog.perform i

/-- The pipeline of `enqueueCluster`.  All its commands are sent, whatever the others answer. -/
def enqueueCluster (id token : String) : MarkerCode Unit := do
  if ← MarkerAction.take .pipeline then
    let _ ← MarkerAction.take (.delMarker id token)
    let _ ← MarkerAction.take (.setActive id token)
  else
    let _ ← MarkerAction.take (.setActive id token)
    let _ ← MarkerAction.take (.delMarker id token)

/-- `SubmitRequest`, from the point where the request is known to be acceptable. -/
def submitRequest (cluster : Bool) (id : String) : MarkerCode Unit := do
  match ← MarkerAction.take (.newRequestToken id) with
  | none => return ()
  | some token =>
    if cluster then enqueueCluster id token
    else
      let _ ← MarkerAction.take (.submitRequest id token)

/-- `CancelRequests`, with the tokens it has read so far. -/
def cancelRequests : List String → List (String × String) → MarkerCode Unit
  | [], tokens => MarkerAction.take (.returned tokens)
  | id :: ids, tokens =>
    if id = "" then cancelRequests ids tokens
    else do
      match ← MarkerAction.take (.getActive id) with
      | none => return ()
      | some none => cancelRequests ids tokens
      | some (some active) =>
        if ← MarkerAction.take (.setMarker id active) then
          cancelRequests ids (tokens ++ [(id, active)])
        else return ()

/-- `cleanupRequestStateByIDAndToken`. -/
def cleanupRequestState (id token : String) : MarkerCode Unit := do
  if id = "" ∨ token = "" then return ()
  else if ← MarkerAction.take (.deleteIfToken id token (requestActiveTokenKey id)) then
    let _ ← MarkerAction.take (.deleteIfToken id token (requestCancellationKey id))

/-- The calls of producers and dispatchers. -/
inductive MarkerOp where
  | submit (cluster : Bool) (id : String)
  | cancel (ids : List String)
  /-- Of a request whose deadline has expired or whose result has been pushed. -/
  | cleanup (id token : String)

inductive MarkerEnv where
  /-- A key expires. -/
  | expire (key : String)
  /-- The process of a call dies. -/
  | crash (t : ℕ)
deriving DecidableEq

def markerSystem : ThreadSystem MarkerAction MarkerAction.Reply ℕ Markers MarkerChoice MarkerOp
    MarkerEnv where
  exec _ i c s := s.exec i c
  program _
    | .submit cluster id => submitRequest cluster id
    | .cancel ids => cancelRequests ids []
    | .cleanup id token => cleanupRequestState id token
  starts _ _ _ := true
  env e s :=
    match e with
    | .expire key => some (s.del key)
    | .crash _ => some s
  kills e t := decide (e = .crash t)

/-! ### What a step does -/

section Keys

lemma requestCancellationKey_inj {id id' : String} :
    requestCancellationKey id = requestCancellationKey id' ↔ id = id' :=
  String.append_right_inj "request-cancel:"

lemma requestActiveTokenKey_inj {id id' : String} :
    requestActiveTokenKey id = requestActiveTokenKey id' ↔ id = id' :=
  String.append_right_inj "request-active:"

lemma cancellationKey_ne_activeKey (id id' : String) :
    requestCancellationKey id ≠ requestActiveTokenKey id' := by
  intro h
  have hchars := congrArg String.toList h
  simp [requestCancellationKey, requestActiveTokenKey] at hchars

end Keys

namespace Markers

variable {s s' : Markers} {id id' token : String}

@[simp] lemma marker_note (e : MarkerEvent) : (s.note e).marker id = s.marker id := rfl

@[simp] lemma active_setActive : (s.set (requestActiveTokenKey id) token).active id' =
    if id' = id then some token else s.active id' := by
  simp [active, set, hget_hset, requestActiveTokenKey_inj]

@[simp] lemma marker_setActive :
    (s.set (requestActiveTokenKey id) token).marker id' = s.marker id' :=
  hget_hset_of_ne _ _ (cancellationKey_ne_activeKey id' id)

@[simp] lemma active_setMarker :
    (s.set (requestCancellationKey id) token).active id' = s.active id' :=
  hget_hset_of_ne _ _ (cancellationKey_ne_activeKey id id').symm

@[simp] lemma marker_setMarker : (s.set (requestCancellationKey id) token).marker id' =
    if id' = id then some token else s.marker id' := by
  simp [marker, set, hget_hset, requestCancellationKey_inj]

@[simp] lemma active_delMarker : (s.del (requestCancellationKey id)).active id' = s.active id' :=
  hget_hdel_of_ne _ (cancellationKey_ne_activeKey id id').symm

@[simp] lemma marker_delMarker : (s.del (requestCancellationKey id)).marker id' =
    if id' = id then none else s.marker id' := by
  simp [marker, del, hget_hdel, requestCancellationKey_inj]

lemma hget_deleteIfToken (key key' : String) :
    hget (s.deleteIfToken key token).keys key' =
      if key' = key ∧ hget s.keys key = some token then none else hget s.keys key' := by
  unfold deleteIfToken
  by_cases h : hget s.keys key = some token
  · rw [if_pos h, del, hget_hdel]
    simp [h]
  · rw [if_neg h, if_neg fun hk => h hk.2]

@[simp] lemma log_deleteIfToken (key : String) : (s.deleteIfToken key token).log = s.log := by
  unfold deleteIfToken
  split <;> rfl

lemma isCancelled_iff : s.isCancelled id token = true ↔
    id ≠ "" ∧ token ≠ "" ∧ s.marker id = some token := by
  unfold isCancelled
  by_cases h : id = "" ∨ token = ""
  · rw [if_pos h]
    constructor
    · intro hf
      cases hf
    · rintro ⟨hid, htoken, -⟩
      exact absurd h (not_or.mpr ⟨hid, htoken⟩)
  · rw [if_neg h]
    obtain ⟨hid, htoken⟩ := not_or.mp h
    cases s.marker id with
    | none => simp
    | some token' => simp [hid, htoken]

/-- What an action can do to the markers. -/
inductive Change (s : Markers) : MarkerAction → Markers → Prop
  | idle (i : MarkerAction) : Change s i s
  | newRequestToken (id token : String) (hne : token ≠ "") (hfresh : s.drawn token = false) :
    Change s (.newRequestToken id) (s.note (.submitted id token))
  | submitRequest (id token : String) :
    Change s (.submitRequest id token) (s.submitRequest id token)
  | delMarker (id token : String) :
    Change s (.delMarker id token) (s.del (requestCancellationKey id))
  | setActive (id token : String) :
    Change s (.setActive id token) (s.set (requestActiveTokenKey id) token)
  | read (id token : String) (hread : s.active id = some token) :
    Change s (.getActive id) (s.note (.read id token))
  | setMarker (id token : String) :
    Change s (.setMarker id token) (s.set (requestCancellationKey id) token)
  | deleteIfToken (id token key : String) :
    Change s (.deleteIfToken id token key)
      ((s.deleteIfToken key token).note (.cleaned id token))
  | returned (tokens : List (String × String)) :
    Change s (.returned tokens) (s.note (.returned tokens))

lemma write_eq_some {c : MarkerChoice} {s₁ : Markers} {r : Bool}
    (h : c.write s s₁ = some (r, s')) : s' = s₁ ∨ r = false ∧ s' = s := by
  cases c with
  | answered | lost =>
    cases h
    exact .inl rfl
  | failed =>
    cases h
    exact .inr ⟨rfl, rfl⟩
  | token _ | delFirst _ => cases h

lemma exec_change {i : MarkerAction} {c : MarkerChoice} {r : i.Reply}
    (h : s.exec i c = some (r, s')) : s.Change i s' := by
  have hwrite : ∀ {s₁ : Markers} {r : Bool}, s.Change i s₁ → c.write s s₁ = some (r, s') →
      s.Change i s' := by
    intro s₁ r hs₁ hw
    rcases write_eq_some hw with rfl | ⟨-, rfl⟩
    · exact hs₁
    · exact .idle i
  cases i with
  | newRequestToken id =>
    cases c with
    | token token =>
      simp only [exec] at h
      split at h
      · cases h
      next hok =>
        cases h
        obtain ⟨hne, hfresh⟩ := not_or.mp hok
        exact .newRequestToken id token hne (Bool.not_eq_true _ ▸ hfresh)
    | failed =>
      cases h
      exact .idle _
    | _ => cases h
  | submitRequest id token => exact hwrite (.submitRequest id token) h
  | pipeline =>
    cases c with
    | delFirst b =>
      cases h
      exact .idle _
    | _ => cases h
  | delMarker id token => exact hwrite (.delMarker id token) h
  | setActive id token => exact hwrite (.setActive id token) h
  | getActive id =>
    cases c with
    | answered =>
      simp only [exec] at h
      split at h
      · cases h
        exact .idle _
      next token hread =>
        cases h
        exact .read id token hread
    | lost | failed =>
      cases h
      exact .idle _
    | _ => cases h
  | setMarker id token => exact hwrite (.setMarker id token) h
  | deleteIfToken id token key => exact hwrite (.deleteIfToken id token key) h
  | returned tokens =>
    cases h
    exact .returned tokens

lemma Change.log {i : MarkerAction} (h : s.Change i s') : s.log <+: s'.log := by
  cases h with
  | newRequestToken id token | read id token | returned tokens => exact prefix_append _ _
  | deleteIfToken id token key =>
    rw [Markers.note, log_deleteIfToken]
    exact prefix_append _ _
  | _ => exact prefix_refl _

end Markers

/-! ### Where commands are run -/

/-- A submission writes the token it has drawn, and a cancellation the token it has read.  A cleanup
removes the two keys of its request. -/
def MarkerAction.Grounded (s : Markers) : MarkerAction → Prop
  | .submitRequest id token => .submitted id token ∈ s.log
  | .delMarker id token => .submitted id token ∈ s.log
  | .setActive id token => .submitted id token ∈ s.log
  | .setMarker id token => .read id token ∈ s.log
  | .deleteIfToken id _ key => key = requestActiveTokenKey id ∨ key = requestCancellationKey id
  | _ => True

/-- What an answer says about the history. -/
def MarkerAction.Recorded (s : Markers) : (i : MarkerAction) → i.Reply → Prop
  | .newRequestToken id, r => ∀ token, r = some token → .submitted id token ∈ s.log
  | .getActive id, r => ∀ token, r = some (some token) → .read id token ∈ s.log
  | _, _ => True

/-- The others only add to the history. -/
def Extends (_ : ℕ) (s s' : Markers) : Prop := s.log <+: s'.log

instance (t : ℕ) : IsPreorder Markers (Extends t) where
  refl s := List.prefix_refl s.log
  trans _ _ _ h h' := List.IsPrefix.trans h h'

lemma Markers.exec_recorded {s s' : Markers} {i : MarkerAction} {c : MarkerChoice} {r : i.Reply}
    (h : s.exec i c = some (r, s')) : i.Recorded s' r := by
  have hlast : ∀ e : MarkerEvent, e ∈ (s.note e).log := fun e =>
    mem_append_right _ mem_cons_self
  cases i with
  | newRequestToken id =>
    intro token hr
    cases c with
    | token token' =>
      simp only [exec] at h
      split at h
      · cases h
      · cases h
        cases hr
        exact hlast _
    | failed =>
      cases h
      cases hr
    | _ => cases h
  | getActive id =>
    intro token hr
    cases c with
    | answered =>
      simp only [exec] at h
      split at h
      · cases h
        cases hr
      · cases h
        cases hr
        exact hlast _
    | lost | failed =>
      cases h
      cases hr
    | _ => cases h
  | _ => exact trivial

section Grounded

variable {ok : Discipline MarkerAction ℕ Markers MarkerChoice MarkerOp MarkerEnv}

/-- The code performs every command where it is grounded. -/
abbrev SafeMarkers (ok : Discipline MarkerAction ℕ Markers MarkerChoice MarkerOp MarkerEnv) (t : ℕ)
    (p : MarkerCode Unit) (s : Markers) : Prop :=
  markerSystem.Safe ok (fun _ => True) Extends (fun _ i s => i.Grounded s) t p
    (fun _ _ => True) s

lemma SafeMarkers.step {t : ℕ} {i : MarkerAction} {f : i.Reply → MarkerCode Unit} {s : Markers}
    (hi : ∀ s₁, s.log <+: s₁.log → i.Grounded s₁)
    (hf : ∀ r s₂, s.log <+: s₂.log → i.Recorded s₂ r → SafeMarkers ok t (f r) s₂) :
    SafeMarkers ok t (i.take >>= f) s := by
  refine ThreadSystem.Safe.step fun s₁ c r s₂ hR _ _ hexec => ?_
  have hlog : s₁.log <+: s₂.log := (Markers.exec_change hexec).log
  exact ⟨hi s₁ hR, ⟨trivial, fun _ _ => hlog⟩, hf r s₂ (hR.trans hlog)
    (Markers.exec_recorded hexec)⟩

lemma SafeMarkers.last {t : ℕ} {i : MarkerAction} {f : i.Reply → Unit} {s : Markers}
    (hi : ∀ s₁, s.log <+: s₁.log → i.Grounded s₁) :
    SafeMarkers ok t (i.take >>= fun r => pure (f r)) s :=
  SafeMarkers.step hi fun _ _ _ _ => trivial

lemma safe_enqueueCluster (t : ℕ) {id token : String} {s : Markers}
    (h : .submitted id token ∈ s.log) : SafeMarkers ok t (enqueueCluster id token) s := by
  refine SafeMarkers.step (fun _ _ => trivial) fun delFirst s₁ h₁ _ => ?_
  cases delFirst with
  | true | false =>
    refine SafeMarkers.step (fun _ h' => h'.subset (h₁.subset h)) fun _ s₂ h₂ _ => ?_
    exact SafeMarkers.last fun _ h' => h'.subset (h₂.subset (h₁.subset h))

lemma safe_submitRequest (t : ℕ) (cluster : Bool) (id : String) (s : Markers) :
    SafeMarkers ok t (submitRequest cluster id) s := by
  refine SafeMarkers.step (fun _ _ => trivial) fun r s₁ _ hr => ?_
  cases r with
  | none => exact trivial
  | some token =>
    have htoken : .submitted id token ∈ s₁.log := hr token rfl
    cases cluster with
    | true => exact safe_enqueueCluster t htoken
    | false => exact SafeMarkers.last fun _ h' => h'.subset htoken

lemma safe_cancelRequests (t : ℕ) (ids : List String) (tokens : List (String × String))
    (s : Markers) : SafeMarkers ok t (cancelRequests ids tokens) s := by
  induction ids generalizing tokens s with
  | nil => exact SafeMarkers.last fun _ _ => trivial
  | cons id ids ih =>
    rw [cancelRequests]
    split
    · exact ih tokens s
    · refine SafeMarkers.step (fun _ _ => trivial) fun r s₁ _ hr => ?_
      match r with
      | none => exact trivial
      | some none => exact ih tokens s₁
      | some (some active) =>
        refine SafeMarkers.step (fun _ h' => h'.subset (hr active rfl)) fun r s₂ _ _ => ?_
        cases r with
        | true => exact ih _ s₂
        | false => exact trivial

lemma safe_cleanupRequestState (t : ℕ) (id token : String) (s : Markers) :
    SafeMarkers ok t (cleanupRequestState id token) s := by
  unfold cleanupRequestState
  split
  · exact trivial
  · refine SafeMarkers.step (fun _ _ => .inl rfl) fun r s₁ _ _ => ?_
    cases r with
    | true => exact SafeMarkers.last fun _ _ => .inr rfl
    | false => exact trivial

lemma reachable_grounded {P : Pool MarkerAction MarkerAction.Reply ℕ Markers}
    (h : markerSystem.Reachable ok .initial P) :
    markerSystem.Reachable (ok.performing fun _ i s => i.Grounded s) .initial P := by
  refine (ThreadSystem.Reachable.safe (I := fun _ => True) (R := Extends) (E := fun _ _ => True)
    (fun _ _ _ _ _ => trivial) ⟨trivial, fun _ => trivial⟩ ?_ ?_ h).2.2
  · intro t o s _ _ _ _
    cases o with
    | submit cluster id => exact safe_submitRequest t cluster id s
    | cancel ids => exact safe_cancelRequests t ids [] s
    | cleanup id token => exact safe_cleanupRequestState t id token s
  · intro e s s' _ _ henv
    refine ⟨trivial, fun t => ?_⟩
    split
    · exact trivial
    · cases e with
      | expire key | crash u =>
        cases henv
        exact prefix_refl s.log

end Grounded

/-! ### Isolation -/

/-- What the markers say about the history. -/
structure Markers.Sound (s : Markers) : Prop where
  /-- Tokens are not empty. -/
  drawn : ∀ {id token}, .submitted id token ∈ s.log → token ≠ ""
  /-- An active token belongs to a generation whose submission has begun. -/
  active : ∀ {id token}, s.active id = some token → .submitted id token ∈ s.log
  /-- Tokens are only read after the submission began. -/
  read : ∀ {id token}, .read id token ∈ s.log →
    Precedes s.log (.submitted id token) (.read id token)
  /-- A marker has been read. -/
  marker : ∀ {id token}, s.marker id = some token → .read id token ∈ s.log

namespace Markers.Sound

variable {s s' : Markers}

lemma initial : Markers.initial.Sound where
  drawn h := by cases h
  active h := by cases h
  read h := by cases h
  marker h := by cases h

lemma shrink (h : s.Sound) (hlog : s'.log = s.log)
    (hactive : ∀ id token, s'.active id = some token → s.active id = some token)
    (hmarker : ∀ id token, s'.marker id = some token → s.marker id = some token) : s'.Sound where
  drawn hd := h.drawn (hlog ▸ hd)
  active ha := hlog ▸ h.active (hactive _ _ ha)
  read hr := by
    rw [hlog] at hr ⊢
    exact h.read hr
  marker hm := hlog ▸ h.marker (hmarker _ _ hm)

lemma note (h : s.Sound) {e : MarkerEvent}
    (hdrawn : ∀ id token, e = .submitted id token → token ≠ "")
    (hread : ∀ id token, e = .read id token → .submitted id token ∈ s.log) : (s.note e).Sound where
  drawn {id token} hd := by
    rcases mem_append.mp hd with hd | hd
    · exact h.drawn hd
    · exact hdrawn id token (mem_singleton.mp hd).symm
  active ha := mem_append_left _ (h.active ha)
  read {id token} hr := by
    rcases mem_append.mp hr with hr | hr
    · exact (h.read hr).mono (prefix_append _ _)
    · obtain rfl := mem_singleton.mp hr
      exact Precedes.concat (hread id token rfl)
  marker hm := mem_append_left _ (h.marker hm)

lemma setActive (h : s.Sound) {id token : String} (hsub : .submitted id token ∈ s.log) :
    (s.set (requestActiveTokenKey id) token).Sound where
  drawn hd := h.drawn hd
  active {id' token'} ha := by
    rw [active_setActive] at ha
    split at ha
    next heq =>
      cases ha
      exact heq ▸ hsub
    · exact h.active ha
  read hr := h.read hr
  marker hm := h.marker (by rwa [marker_setActive] at hm)

lemma delMarker (h : s.Sound) (id : String) : (s.del (requestCancellationKey id)).Sound := by
  refine h.shrink rfl (fun id' token ha => ?_) fun id' token hm => ?_
  · rwa [active_delMarker] at ha
  · rw [marker_delMarker] at hm
    split at hm
    · cases hm
    · exact hm

lemma del (h : s.Sound) (key : String) : (s.del key).Sound :=
  h.shrink rfl (fun _ _ ha => (hget_of_hdel ha).2) fun _ _ hm => (hget_of_hdel hm).2

lemma change (h : s.Sound) {i : MarkerAction} (hi : i.Grounded s) (hs : s.Change i s') :
    s'.Sound := by
  cases hs with
  | idle => exact h
  | newRequestToken id token hne =>
    refine h.note (fun id' token' he => ?_) (by rintro _ _ ⟨⟩)
    cases he
    exact hne
  | submitRequest id token => exact (h.delMarker id).setActive hi
  | delMarker id token => exact h.delMarker id
  | setActive id token => exact h.setActive hi
  | read id token hread =>
    refine h.note (by rintro _ _ ⟨⟩) fun id' token' he => ?_
    cases he
    exact h.active hread
  | setMarker id token =>
    refine ⟨h.drawn, fun ha => h.active (by rwa [active_setMarker] at ha), h.read,
      fun {id' token'} hm => ?_⟩
    rw [marker_setMarker] at hm
    split at hm
    next heq =>
      cases hm
      exact heq ▸ hi
    · exact h.marker hm
  | deleteIfToken id token key =>
    refine Sound.note ?_ (by rintro _ _ ⟨⟩) (by rintro _ _ ⟨⟩)
    unfold deleteIfToken
    split
    · exact h.del key
    · exact h
  | returned tokens => exact h.note (by rintro _ _ ⟨⟩) (by rintro _ _ ⟨⟩)

end Markers.Sound

lemma reachable_sound {ok : Discipline MarkerAction ℕ Markers MarkerChoice MarkerOp MarkerEnv}
    {P : Pool MarkerAction MarkerAction.Reply ℕ Markers}
    (h : markerSystem.Reachable ok .initial P) : P.state.Sound := by
  refine ThreadSystem.Reachable.invariant (I := Markers.Sound) .initial ?_ ?_ (reachable_grounded h)
  · intro t i c s r s' hs hok hexec
    exact hs.change hok.2 (Markers.exec_change hexec)
  · intro e s s' hs _ henv
    cases e with
    | expire key =>
      cases henv
      exact hs.del key
    | crash u =>
      cases henv
      exact hs

/-- In every interleaving of submissions, cancellations and cleanups, with keys expiring and
processes dying at any time, a generation is cancelled only if a `CancelRequests` has read its token
as the active one after its submission began.  The cleanup of a generation only runs
`deleteIfTokenScript` with its own token, and that leaves every entry with another token. -/
theorem cancellation_isolated {P : Pool MarkerAction MarkerAction.Reply ℕ Markers}
    (h : markerSystem.Reachable .free .initial P) :
    (∀ id token, P.state.isCancelled id token = true →
      Precedes P.state.log (.submitted id token) (.read id token)) ∧
    (∀ id token, (cleanupRequestState id token).Always fun i =>
      ∃ key, i = .deleteIfToken id token key) ∧
    ∀ t c P' id token key k, P.prog t = some (.act (.deleteIfToken id token key) k) →
      markerSystem.next P (.act t c) = some P' → ∀ key' token', token' ≠ token →
      Hash.hget P.state.keys key' = some token' → Hash.hget P'.state.keys key' = some token' := by
  have hs := reachable_sound h
  refine ⟨fun id token hc => ?_, fun id token => ?_, ?_⟩
  · exact hs.read (hs.marker (Markers.isCancelled_iff.mp hc).2.2)
  · unfold cleanupRequestState
    split
    · exact trivial
    · refine .step ⟨_, rfl⟩ fun r => ?_
      cases r with
      | true => exact .step ⟨_, rfl⟩ fun _ => trivial
      | false => exact trivial
  · intro t c P' id token key k hprog hnext key' token' hne hget
    obtain ⟨i, k', r, s', hprog', hexec, rfl⟩ := ThreadSystem.next_act hnext
    rw [hprog] at hprog'
    cases hprog'
    have hchange : P.state.Change (.deleteIfToken id token key) s' :=
      Markers.exec_change (c := c) (r := r) hexec
    cases hchange with
    | idle => exact hget
    | deleteIfToken =>
      refine (Markers.hget_deleteIfToken key key').trans ?_
      rw [if_neg, hget]
      rintro ⟨rfl, htoken⟩
      exact hne (Option.some.inj (hget.symm.trans htoken))

/-- A request is submitted and cancelled, submitted again and cancelled again.  Then its first
generation is cleaned up, as far as the second script. -/
def resubmittedRun : List (Label ℕ MarkerChoice MarkerOp MarkerEnv) :=
  [.start 0 (.submit false "r"), .act 0 (.token "a"), .act 0 .answered,
    .start 1 (.cancel ["r"]), .act 1 .answered, .act 1 .answered, .act 1 .answered,
    .start 2 (.submit true "r"), .act 2 (.token "b"), .act 2 (.delFirst true), .act 2 .answered,
    .act 2 .answered,
    .start 3 (.cancel ["r"]), .act 3 .answered, .act 3 .answered, .act 3 .answered,
    .start 4 (.cleanup "r" "a"), .act 4 .answered]

theorem cancelledRun_isolated :
    let P := markerSystem.run (ThreadSystem.idle .initial) resubmittedRun
    P.state.log = [.submitted "r" "a", .read "r" "a", .returned [("r", "a")], .submitted "r" "b",
      .read "r" "b", .returned [("r", "b")], .cleaned "r" "a"] ∧
    P.state.isCancelled "r" "a" = false ∧ P.state.isCancelled "r" "b" = true ∧
    Precedes P.state.log (.submitted "r" "b") (.read "r" "b") ∧
    ∃ P', markerSystem.next P (.act 4 .answered) = some P' ∧ P'.state.active "r" = some "b" ∧
      P'.state.marker "r" = some "b" := by
  have h := markerSystem.reachable_run .initial resubmittedRun
  obtain ⟨hcancel, -, hclean⟩ := cancellation_isolated h
  have hc : (markerSystem.run (ThreadSystem.idle .initial) resubmittedRun).state.isCancelled
      "r" "b" = true := by
    decide +kernel
  have hprog : ∃ k, (markerSystem.run (ThreadSystem.idle .initial) resubmittedRun).prog 4 =
      some (.act (.deleteIfToken "r" "a" (requestCancellationKey "r")) k) := ⟨_, rfl⟩
  obtain ⟨k, hprog⟩ := hprog
  have hsome : (markerSystem.next (markerSystem.run (ThreadSystem.idle .initial) resubmittedRun)
      (.act 4 .answered)).isSome = true := by
    decide +kernel
  obtain ⟨P', hnext⟩ := Option.isSome_iff_exists.mp hsome
  have hkeeps := hclean 4 .answered P' _ _ _ k hprog hnext
  refine ⟨by decide +kernel, by decide +kernel, hc, hcancel _ _ hc, P', hnext, ?_, ?_⟩
  · exact hkeeps (requestActiveTokenKey "r") "b" (by decide) (by decide +kernel)
  · exact hkeeps (requestCancellationKey "r") "b" (by decide) (by decide +kernel)

end LlmdAsync.Redis
