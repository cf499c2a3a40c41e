import LlmdAsync.Foundation.Threads

/-!
# Programs that run alone

What a program does from beginning to end while nobody else acts.  `alone` runs it, as long as its
actions are possible, and `Ends` says that the run reaches the end and what holds there.  The rules
follow the shape of the code.  A run of a small part of the state is a run of the whole
(`Ends.lift`), and it is one of the runs of a system of threads (`ThreadSystem.steps_of_alone`).

Where an action can end in several ways, a run of the program is a `Trail`: the actions with their
answers and the states they found.  `Ensures` says what holds of every trail that reaches the end.
-/

namespace LlmdAsync

open Option Function

namespace Prog

variable {ι : Type} {ρ : ι → Type} {α β σ : Type} (exec : (i : ι) → σ → Option (ρ i × σ))

/-- Run a program, as long as its actions are possible. -/
def alone : Prog ι ρ α → σ → Option (α × σ)
  | .done a, s => some (a, s)
  | .act i k, s => (exec i s).bind fun rs => (k rs.1).alone rs.2

/-- The program runs to its end and returns in a state that satisfies `Q`. -/
def Ends (p : Prog ι ρ α) (Q : α → σ → Prop) (s : σ) : Prop :=
  ∃ a s', p.alone exec s = some (a, s') ∧ Q a s'

variable {p : Prog ι ρ α}

lemma alone_bind (p : Prog ι ρ α) (f : α → Prog ι ρ β) (s : σ) :
    (p >>= f).alone exec s = (p.alone exec s).bind fun as => (f as.1).alone exec as.2 := by
  induction p generalizing s with
  | done a => rfl
  | act i k ih =>
    show ((exec i s).bind fun rs => (k rs.1 >>= f).alone exec rs.2) =
      ((exec i s).bind fun rs => (k rs.1).alone exec rs.2).bind _
    rw [bind_assoc]
    congr 1
    funext rs
    exact ih rs.1 rs.2

variable {exec} {Q Q' : α → σ → Prop} {s : σ}

lemma Ends.pure {a : α} (h : Q a s) : (Pure.pure a : Prog ι ρ α).Ends exec Q s := ⟨a, s, rfl, h⟩

lemma Ends.bind {f : α → Prog ι ρ β} {Q : β → σ → Prop}
    (h : p.Ends exec (fun a s' => (f a).Ends exec Q s') s) : (p >>= f).Ends exec Q s := by
  obtain ⟨a, s₁, hp, b, s₂, hf, hQ⟩ := h
  refine ⟨b, s₂, ?_, hQ⟩
  rw [alone_bind, hp]
  exact hf

lemma Ends.step {i : ι} {f : ρ i → Prog ι ρ β} {Q : β → σ → Prop} {r : ρ i} {s' : σ}
    (hexec : exec i s = some (r, s')) (h : (f r).Ends exec Q s') :
    (perform i >>= f).Ends exec Q s := by
  obtain ⟨b, s₂, hf, hQ⟩ := h
  refine ⟨b, s₂, ?_, hQ⟩
  show ((exec i s).bind fun rs => (f rs.1).alone exec rs.2) = _
  rw [hexec]
  exact hf

lemma Ends.weaken (h : p.Ends exec Q s) (hQ : ∀ a s', Q a s' → Q' a s') :
    p.Ends exec Q' s := by
  obtain ⟨a, s', hp, hq⟩ := h
  exact ⟨a, s', hp, hQ a s' hq⟩

lemma Ends.of_always {N : ι → Prop} {A : σ → Prop}
    (hN : ∀ i, N i → ∀ s, A s → ∃ r s', exec i s = some (r, s') ∧ A s') (hp : p.Always N)
    (h : A s) : p.Ends exec (fun _ => A) s := by
  induction p generalizing s with
  | done a => exact ⟨a, s, rfl, h⟩
  | act i k ih =>
    obtain ⟨r, s₁, hexec, hA⟩ := hN i hp.1 s h
    obtain ⟨a, s₂, hk, hA₂⟩ := ih r (hp.2 r) hA
    refine ⟨a, s₂, ?_, hA₂⟩
    show ((exec i s).bind fun rs => (k rs.1).alone exec rs.2) = _
    rw [hexec]
    exact hk

lemma Ends.lift {ω : Type} {exec' : (i : ι) → ω → Option (ρ i × ω)} (view : ω → σ)
    {F : ω → ω → Prop} (hrefl : ∀ w, F w w) (htrans : ∀ w w₁ w₂, F w w₁ → F w₁ w₂ → F w w₂)
    (hsim : ∀ i w r s', exec i (view w) = some (r, s') →
      ∃ w', exec' i w = some (r, w') ∧ view w' = s' ∧ F w w') {w : ω} (h : p.Ends exec Q (view w)) :
    p.Ends exec' (fun a w' => Q a (view w') ∧ F w w') w := by
  obtain ⟨a, s', hp, hQ⟩ := h
  induction p generalizing w with
  | done b =>
    cases hp
    exact ⟨a, w, rfl, hQ, hrefl w⟩
  | act i k ih =>
    obtain ⟨⟨r, s₁⟩, hexec, hk⟩ := bind_eq_some_iff.mp hp
    obtain ⟨w₁, hexec', rfl, hF⟩ := hsim i w r s₁ hexec
    obtain ⟨b, w₂, hk', hQ', hF'⟩ := ih r hk
    refine ⟨b, w₂, ?_, hQ', htrans w w₁ w₂ hF hF'⟩
    show ((exec' i w).bind fun rs => (k rs.1).alone exec' rs.2) = _
    rw [hexec']
    exact hk'

/-! ### Any answers -/

section Trail

variable (moves : (i : ι) → σ → ρ i → σ → Prop)

/-- The program runs by itself and returns, and every action is answered as `moves` allows. -/
inductive Trail : Prog ι ρ α → σ → List (σ × Sigma ρ) → α → σ → Prop
  | done (a : α) (s : σ) : Trail (.done a) s [] a s
  | act {i : ι} {k : ρ i → Prog ι ρ α} {s s₁ s' : σ} {r : ρ i} {trail : List (σ × Sigma ρ)} {a : α}
    (hstep : moves i s r s₁) (h : Trail (k r) s₁ trail a s') :
    Trail (.act i k) s ((s, ⟨i, r⟩) :: trail) a s'

/-- `Q` holds of every trail of the program from this state. -/
def Ensures (p : Prog ι ρ α) (Q : α → List (σ × Sigma ρ) → σ → Prop) (s : σ) : Prop :=
  ∀ trail a s', Trail moves p s trail a s' → Q a trail s'

variable {moves} {P P' : α → List (σ × Sigma ρ) → σ → Prop}

variable {a : α} {p : Prog ι ρ α}

lemma Ensures.pure (h : P a [] s) : (Pure.pure a : Prog ι ρ α).Ensures moves P s := by
  intro trail b s' htrail
  cases htrail
  exact h

lemma Ensures.step {i : ι} {f : ρ i → Prog ι ρ α} (h : ∀ r s₁, moves i s r s₁ →
      (f r).Ensures moves (fun a trail => P a ((s, ⟨i, r⟩) :: trail)) s₁) :
    (perform i >>= f).Ensures moves P s := by
  intro trail a s' htrail
  cases htrail with
  | act hstep htrail => exact h _ _ hstep _ _ _ htrail

lemma Ensures.bind {f : α → Prog ι ρ β} {Q : β → List (σ × Sigma ρ) → σ → Prop} (h : p.Ensures moves
      (fun a trail => (f a).Ensures moves fun b trail' => Q b (trail ++ trail')) s) :
    (p >>= f).Ensures moves Q s := by
  induction p generalizing s Q with
  | done a => exact h [] a s (.done a s)
  | act i k ih =>
    intro trail b s' htrail
    cases htrail with
    | act hstep htrail =>
      refine ih _ (Q := fun b trail => Q b (_ :: trail)) ?_ _ _ _ htrail
      exact fun trail₁ a s₁ htrail₁ => h _ _ _ (.act hstep htrail₁)

lemma Ensures.weaken (h : p.Ensures moves P s)
    (hP : ∀ a trail s', P a trail s' → P' a trail s') : p.Ensures moves P' s :=
  fun trail a s' htrail => hP a trail s' (h trail a s' htrail)

lemma Ensures.of_always {N : ι → Prop} {A : σ → Prop}
    (hN : ∀ i, N i → ∀ s r s', A s → moves i s r s' → A s') (hp : p.Always N)
    (hs : A s) : p.Ensures moves (fun _ trail s' => A s' ∧ ∀ e ∈ trail, N e.2.1) s := by
  induction p generalizing s with
  | done a => exact .pure ⟨hs, fun e he => absurd he List.not_mem_nil⟩
  | act i k ih =>
    refine .step (f := k) fun r s₁ hstep => (ih r (hp.2 r) (hN i hp.1 s r s₁ hs hstep)).weaken ?_
    rintro a trail s' ⟨hA, htrail⟩
    exact ⟨hA, List.forall_mem_cons.mpr ⟨hp.1, htrail⟩⟩

lemma Trail.keeps {N : ι → Prop} {A : σ → Prop}
    (hN : ∀ i, N i → ∀ s r s', A s → moves i s r s' → A s') {trail : List (σ × Sigma ρ)} {s s' : σ}
    (h : Trail moves p s trail a s') (htrail : ∀ e ∈ trail, N e.2.1) (hs : A s) : A s' := by
  induction h with
  | done a s => exact hs
  | act hstep _ ih =>
    obtain ⟨hi, htrail⟩ := List.forall_mem_cons.mp htrail
    exact ih htrail (hN _ hi _ _ _ hs hstep)

lemma Trail.view {ω : Type} {moves' : (i : ι) → ω → ρ i → ω → Prop} (view : ω → σ)
    (hview : ∀ i w r w', moves' i w r w' → moves i (view w) r (view w')) {w w' : ω}
    {trail : List (ω × Sigma ρ)} (h : Trail moves' p w trail a w') :
    Trail moves p (view w) (trail.map fun e => (view e.1, e.2)) a (view w') := by
  induction h with
  | done a w => exact .done a (view w)
  | act hstep _ ih => exact .act (hview _ _ _ _ hstep) ih

/-- Run a program, as long as its actions are possible, and keep the trail. -/
def record (exec : (i : ι) → σ → Option (ρ i × σ)) :
    Prog ι ρ α → σ → Option (List (σ × Sigma ρ) × α × σ)
  | .done a, s => some ([], a, s)
  | .act i k, s => (exec i s).bind fun rs =>
      ((k rs.1).record exec rs.2).map fun out => ((s, ⟨i, rs.1⟩) :: out.1, out.2)

lemma trail_of_record (hexec : ∀ i s r s', exec i s = some (r, s') → moves i s r s')
    {out : List (σ × Sigma ρ) × α × σ} (h : p.record exec s = some out) :
    Trail moves p s out.1 out.2.1 out.2.2 := by
  induction p generalizing s out with
  | done b =>
    cases h
    exact .done b s
  | act i k ih =>
    obtain ⟨⟨r, s₁⟩, hi, hk⟩ := bind_eq_some_iff.mp h
    obtain ⟨out', hout', rfl⟩ := map_eq_some_iff.mp hk
    exact .act (hexec i s r s₁ hi) (ih r hout')

lemma exists_trail_of_alone (hexec : ∀ i s r s', exec i s = some (r, s') → moves i s r s') {s' : σ}
    (h : p.alone exec s = some (a, s')) :
    ∃ trail, Trail moves p s trail a s' := by
  induction p generalizing s with
  | done b =>
    cases h
    exact ⟨[], .done a s'⟩
  | act i k ih =>
    obtain ⟨⟨r, s₁⟩, hi, hk⟩ := bind_eq_some_iff.mp h
    obtain ⟨trail, htrail⟩ := ih r hk
    exact ⟨_, .act (hexec i s r s₁ hi) htrail⟩

end Trail

end Prog

namespace ThreadSystem

variable {ι : Type} {ρ : ι → Type} {τ σ χ ο ε : Type} [DecidableEq τ]

lemma steps_of_alone (S : ThreadSystem ι ρ τ σ χ ο ε) (t : τ) (c : χ) {p : Prog ι ρ Unit}
    {s s' : σ} (h : p.alone (fun i => S.exec t i c) s = some ((), s'))
    {prog : τ → Option (Prog ι ρ Unit)} (hp : prog t = some p) :
    Relation.ReflTransGen (S.Step .free) ⟨s, prog⟩ ⟨s', update prog t (some (.done ()))⟩:= by
  induction p generalizing s prog with
  | done a =>
    cases h
    rw [show update prog t (some (.done ())) = prog from
      update_eq_self_iff.mpr hp.symm]
  | act i k ih =>
    obtain ⟨⟨r, s₁⟩, hexec, hk⟩ := bind_eq_some_iff.mp h
    have hnext : S.next ⟨s, prog⟩ (.act t c) =
        some ⟨s₁, update prog t (some (k r))⟩ := by
      simp only [next, hp, hexec, map_some]
    have hrest := ih r hk (update_self t (some (k r)) prog)
    rw [update_idem] at hrest
    exact .head ⟨.act t c, fun _ _ _ => trivial, hnext⟩ hrest

end ThreadSystem

end LlmdAsync
