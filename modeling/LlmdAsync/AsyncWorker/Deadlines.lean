import LlmdAsync.AsyncWorker.Outcome

/-!
# Results for deadlines

When a worker puts a result with the code `DEADLINE_EXCEEDED` on the result channel.
`validateAndMarshal`, `finishGateContext` and `retryMessage` offer one after they have compared the
clock with the deadline of the request.  The fourth place is a send that has failed and whose
context has expired, which also happens when `requestTimeout` has run out.

Along a path time passes.  What the worker has found out (`Progress.Told`) is true then, if no
context has expired before the deadline.
-/

namespace LlmdAsync.AsyncWorker

open Action

/-! ### Time -/

/-- The clock, and the results that have been put, with the times at which they were put. -/
structure Timeline where
  clock : ℤ
  results : List (ℤ × ResultMessage)

/-- What an action does to the results. -/
def Action.deliver : (a : Action) → a.Reply → ℤ → List (ℤ × ResultMessage) →
    List (ℤ × ResultMessage)
  | .offerResult m, sent, t, results => if sent then results ++ [(t, m)] else results
  | _, _, _, results => results

/-- What the answer tells about the time. -/
def Action.Timed : (a : Action) → a.Reply → Timeline → ℤ → Prop
  | .now, t, _, clock => t = clock
  | .park .., some t', _, clock => t'.1 ≤ clock
  | .reqCtxExceeded deadline, exceeded, s, clock =>
    clock = s.clock ∧ (exceeded = true → deadline ≤ clock)
  | _, _, _, _ => True

/-- Time passes while an action is performed.  The clock never goes back, and a context that has
exceeded its deadline has done so before it is asked. -/
structure Passes (a : Action) (s : Timeline) (r : a.Reply) (s' : Timeline) : Prop where
  clock : s.clock ≤ s'.clock
  timed : a.Timed r s s'.clock
  results : s'.results = a.deliver r s'.clock s.results

/-- If a send has failed and its context has expired, then not because of `requestTimeout` alone:
the deadline of the request has been reached. -/
def Punctual (msg : Message) : (a : Action) → Timeline → a.Reply → Prop
  | .reqCtxExceeded _, s, exceeded => exceeded = true → msg.deadlineNs ≤ s.clock
  | _, _, _ => True

/-- Whenever a send has failed and its context has expired, `requestTimeout` would have reached the
deadline from the reading of the clock at which the context was made. -/
def Worker.Reaches (w : Worker) (msg : Message) (tr : List (Sigma Action.Reply)) : Prop :=
  ∀ now : ℤ, ⟨.now, now⟩ ∈ tr → ⟨.reqCtxExceeded (w.reqDeadline msg now), true⟩ ∈ tr →
    msg.deadlineNs ≤ now + w.requestTimeout

/-! ### Paths in time -/

/-- What the worker has found out is true, and the results for the deadline were put in time. -/
structure InTime (msg : Message) (g : Progress) (s : Timeline) : Prop where
  told : g.Told msg → msg.deadlineNs ≤ s.clock
  results : ∀ e ∈ s.results, e.2.errorCode = errCodeDeadlineExceeded → msg.deadlineNs ≤ e.1

/-- What an answer tells of the deadline is true. -/
lemma Passes.told {msg : Message} {g : Progress} {s s' : Timeline} {a : Action} {r : a.Reply}
    (hpass : Passes a s r s') (hpunctual : Punctual msg a s r) (h : (g.enter a r).Told msg) :
    g.Told msg ∨ msg.deadlineNs ≤ s'.clock := by
  rcases h with hexpired | ⟨t, ht, hle⟩
  · rcases (Bool.or_eq_true _ _).mp hexpired with hbefore | hnow
    · exact .inl (.inl hbefore)
    · cases a with
      | reqCtxExceeded d => exact .inr ((hpunctual hnow).trans hpass.clock)
      | _ => cases hnow
  · rcases List.mem_append.mp ht with hnow | hbefore
    · cases a with
      | now =>
        obtain rfl := List.mem_singleton.mp hnow
        exact .inr (le_of_le_of_eq hle hpass.timed)
      | _ => cases hnow
    · exact .inl (.inr ⟨t, hbefore, hle⟩)

lemma InTime.step {w : Worker} {msg : Message} {g : Progress} {s s' : Timeline} {a : Action}
    {r : a.Reply} (h : InTime msg g s) (hheeded : Heeded w msg a g) (hpass : Passes a s r s')
    (hpunctual : Punctual msg a s r) : InTime msg (g.enter a r) s' := by
  have htold : g.Told msg → msg.deadlineNs ≤ s'.clock := fun hg => (h.told hg).trans hpass.clock
  refine ⟨fun hg => (hpass.told hpunctual hg).elim htold id, fun e he hcode => ?_⟩
  have hresults := hpass.results
  cases a with
  | offerResult m =>
    have he' : e ∈ s.results ∨ e = (s'.clock, m) := by
      cases r with
      | false => exact .inl (by simpa [hresults, deliver] using he)
      | true => simpa [hresults, deliver] using he
    rcases he' with he | rfl
    · exact h.results e he hcode
    · exact htold (hheeded.2 hcode)
  | _ =>
    rw [hresults] at he
    exact h.results e he hcode

lemma mem_of_mem_readings {g : Progress} {tr : List (Sigma Action.Reply)} (hg : g.readings = [])
    {t : ℤ} (ht : t ∈ (g.after tr).readings) : ⟨.now, t⟩ ∈ tr := by
  induction tr using List.reverseRecOn with
  | nil => exact (List.not_mem_nil (hg ▸ ht)).elim
  | append_singleton tr e ih =>
    rw [after_concat] at ht
    rcases List.mem_append.mp ht with hnow | hbefore
    · obtain ⟨a, r⟩ := e
      cases a with
      | now =>
        obtain rfl := List.mem_singleton.mp hnow
        exact List.mem_append_right _ List.mem_cons_self
      | _ => cases hnow
    · exact List.mem_append_left _ (ih hbefore)

/-- The context of a send lasts until the deadline exactly if `requestTimeout` reaches it. -/
lemma deadlineNs_le_reqDeadline {w : Worker} {msg : Message} {now : ℤ} :
    msg.deadlineNs ≤ w.reqDeadline msg now ↔ msg.deadlineNs ≤ now + w.requestTimeout := by
  unfold Worker.reqDeadline
  split
  · exact ⟨fun h => h.trans (min_le_left _ _), fun h => le_min h le_rfl⟩
  · exact Iff.rfl

lemma Worker.Reaches.punctual {w : Worker} {msg : Message} {tr : List (Sigma Action.Reply)}
    (h : w.Reaches msg tr) (hmade : ∀ d r, ⟨.reqCtxExceeded d, r⟩ ∈ tr →
      ∃ now : ℤ, ⟨.now, now⟩ ∈ tr ∧ d = w.reqDeadline msg now)
    (e : Sigma Action.Reply) (he : e ∈ tr) (s s' : Timeline) (hpass : Passes e.1 s e.2 s') :
    Passes e.1 s e.2 s' ∧ Punctual msg e.1 s e.2 := by
  refine ⟨hpass, ?_⟩
  obtain ⟨a, r⟩ := e
  cases a with
  | reqCtxExceeded d =>
    rintro rfl
    obtain ⟨now, hnow, rfl⟩ := hmade d true he
    obtain ⟨hclock, hexpired⟩ := hpass.timed
    exact (deadlineNs_le_reqDeadline.mpr (h now hnow he)).trans ((hexpired rfl).trans hclock.le)
  | _ => exact trivial

/-- **Results for the deadline.**  On every way through `processMessage`, whatever the limits, the
gate, the checker and the client: if no failed send finds its context expired before the deadline of
the request, a result with the code `DEADLINE_EXCEEDED` is only put once the deadline has been
reached.  This is so if `requestTimeout` reaches the deadline from the reading of the clock at which
the context was made, and exactly then an expired context is sure to have expired in time. -/
theorem deadline_results_in_time (w : Worker) (msg : Message) (tr : List (Sigma Action.Reply))
    (u : Unit) (hpath : (w.processMessage msg).Path tr u) (start : ℤ) (s : Timeline) :
    (Prog.Leads (fun a s r s' => Passes a s r s' ∧ Punctual msg a s r) tr ⟨start, []⟩ s →
      ∀ e ∈ s.results, e.2.errorCode = errCodeDeadlineExceeded → msg.deadlineNs ≤ e.1) ∧
    (Prog.Leads Passes tr ⟨start, []⟩ s → w.Reaches msg tr →
      ∀ e ∈ s.results, e.2.errorCode = errCodeDeadlineExceeded → msg.deadlineNs ≤ e.1) ∧
    (∀ d r, ⟨.reqCtxExceeded d, r⟩ ∈ tr →
      ∃ now : ℤ, ⟨.now, now⟩ ∈ tr ∧ d = w.reqDeadline msg now) ∧
    ∀ now, (∀ s clock, (Action.reqCtxExceeded (w.reqDeadline msg now)).Timed true s clock →
      msg.deadlineNs ≤ clock) ↔ msg.deadlineNs ≤ now + w.requestTimeout := by
  have hmade : ∀ d r, ⟨.reqCtxExceeded d, r⟩ ∈ tr →
      ∃ now : ℤ, ⟨.now, now⟩ ∈ tr ∧ d = w.reqDeadline msg now := by
    intro d r he
    obtain ⟨tr₁, tr₂, htr⟩ := List.append_of_mem he
    obtain ⟨now, hnow, hd⟩ := processMessage_heeded hpath tr₁ _ r tr₂ htr
    exact ⟨now, htr ▸ List.mem_append_left _ (mem_of_mem_readings rfl hnow), hd⟩
  have hintime :
      Prog.Leads (fun a s r s' => Passes a s r s' ∧ Punctual msg a s r) tr ⟨start, []⟩ s →
      ∀ e ∈ s.results, e.2.errorCode = errCodeDeadlineExceeded → msg.deadlineNs ≤ e.1 := by
    intro htime
    have hstart : InTime msg (.start w msg) ⟨start, []⟩ := by
      refine ⟨?_, fun e he => (List.not_mem_nil he).elim⟩
      rintro (hexpired | ⟨t, ht, -⟩)
      · cases hexpired
      · cases ht
    obtain ⟨g, -, hin⟩ := Prog.Follows.leads (N := fun _ => True)
      (fun a r g s s' _ hheeded hin hstep => hin.step hheeded hstep.1 hstep.2)
      (works_processMessage w msg) hpath (fun _ _ => trivial) hstart htime
    exact hin.results
  refine ⟨hintime, fun htime hreaches => hintime (htime.mono (hreaches.punctual hmade)), hmade,
    fun now => ?_⟩
  rw [← deadlineNs_le_reqDeadline]
  refine ⟨fun h => h ⟨w.reqDeadline msg now, []⟩ _ ⟨rfl, fun _ => le_rfl⟩, fun h s clock hs => ?_⟩
  exact h.trans (hs.2 rfl)

/-! ### A request timeout that is taken for the deadline -/

/-- A worker without a gate that gives a send one second. -/
def hastyWorker : Worker := ⟨second, 0, false, none, fun _ => ⟨1, .blocking⟩, id⟩

/-- A message with a deadline at 100 seconds. -/
def patientMessage : Message :=
  ⟨"m", 100, [0x7b, 0x7d], .empty, ⟨0, "", "", 1, "in", "out", 0, true, "", 0, "", .empty⟩, [],
    "/v1"⟩

def contextError : SendError := ⟨"context deadline exceeded", true, none, 0⟩

/-- The worker takes the message at some time, and its send fails when the context has expired. -/
def expiredPath (t : ℤ) : List (Sigma Action.Reply) :=
  [⟨.now, t⟩, ⟨.now, t⟩, ⟨.validate [0x7b, 0x7d] .empty 100, none⟩, ⟨.now, t⟩, ⟨.now, t⟩,
    ⟨.transform [0x7b, 0x7d] .empty, .ok none⟩, ⟨.now, t⟩,
    ⟨.send "/v1" [] [0x7b, 0x7d], ⟨.error (none, contextError), false⟩⟩, ⟨.requestCtxErr, false⟩,
    ⟨.reqCtxExceeded (hastyWorker.reqDeadline patientMessage t), true⟩,
    ⟨.offerResult (hastyWorker.newDeadlineExceededResult patientMessage), true⟩]

def expiredResult : ResultMessage := hastyWorker.newDeadlineExceededResult patientMessage

lemma expiredPath_path {t : ℤ} (ht : t = 10 * second ∨ t = 99 * second) :
    (hastyWorker.processMessage patientMessage).Path (expiredPath t) () := by
  rcases ht with rfl | rfl
  · exact .act _ (.act _ (.act _ (.act _ (.act _ (.act _ (.act _ (.act _ (.act _ (.act _ (.act _
      (.done _)))))))))))
  · exact .act _ (.act _ (.act _ (.act _ (.act _ (.act _ (.act _ (.act _ (.act _ (.act _ (.act _
      (.done _)))))))))))

lemma expiredPath_leads {t t' : ℤ} (ht : t ≤ t')
    (hd : hastyWorker.reqDeadline patientMessage t ≤ t') :
    Prog.Leads Passes (expiredPath t) ⟨t, []⟩ ⟨t', [(t', expiredResult)]⟩ := by
  have hquick : ∀ a r, a.Timed r ⟨t, []⟩ t → a.deliver r t [] = [] →
      Passes a ⟨t, []⟩ r ⟨t, []⟩ := fun a r htimed hdeliver =>
    ⟨le_refl t, htimed, hdeliver.symm⟩
  refine ⟨_, hquick _ _ rfl rfl, _, hquick _ _ rfl rfl, _, hquick _ _ trivial rfl, _,
    hquick _ _ rfl rfl, _, hquick _ _ rfl rfl, _, hquick _ _ trivial rfl, _, hquick _ _ rfl rfl,
    ⟨t', []⟩, ⟨ht, trivial, rfl⟩, ⟨t', []⟩, ⟨le_refl t', trivial, rfl⟩, ⟨t', []⟩,
    ⟨le_refl t', ⟨rfl, fun _ => hd⟩, rfl⟩, _, ⟨le_refl t', trivial, rfl⟩, rfl⟩

/-- A send that begins one second before the deadline and lasts until then gives a result for the
deadline in time. -/
theorem expiredPath_in_time :
    hastyWorker.Reaches patientMessage (expiredPath (99 * second)) ∧
      expiredResult.errorCode = errCodeDeadlineExceeded ∧
      patientMessage.deadlineNs ≤ 100 * second := by
  have hreaches : hastyWorker.Reaches patientMessage (expiredPath (99 * second)) := by
    intro now hnow _
    have hnow : now = 99 * second := by simpa [expiredPath] using hnow
    rw [hnow]
    decide
  have hintime := (deadline_results_in_time hastyWorker patientMessage _ ()
    (expiredPath_path (.inr rfl)) (99 * second)
    ⟨100 * second, [(100 * second, expiredResult)]⟩).2.1
  exact ⟨hreaches, rfl, hintime (expiredPath_leads (by decide) (by decide)) hreaches
    (100 * second, expiredResult) List.mem_cons_self rfl⟩

/-- The send begins at 10 seconds and its timeout runs out one second later.  The result says that
the deadline at 100 seconds has been exceeded. -/
theorem requestTimeout_taken_for_deadline :
    (hastyWorker.processMessage patientMessage).Path (expiredPath (10 * second)) () ∧
      Prog.Leads Passes (expiredPath (10 * second)) ⟨10 * second, []⟩
        ⟨11 * second, [(11 * second, expiredResult)]⟩ ∧
      expiredResult.errorCode = errCodeDeadlineExceeded ∧
      11 * second < patientMessage.deadlineNs :=
  ⟨expiredPath_path (.inl rfl), expiredPath_leads (by decide) (by decide), rfl, by decide⟩

end LlmdAsync.AsyncWorker
