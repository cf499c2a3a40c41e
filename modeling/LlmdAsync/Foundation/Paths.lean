import LlmdAsync.Foundation.Threads

/-!
# Paths through a program

What a program does on its own, whatever the others do.  A `Path` is a list of the actions that a
run of the program performs, with their answers; every interleaving of several programs takes each
of them along a path.

`Follows` is a rule for all paths at once.  It lets the actions and their answers change a ghost
state, and asks that every action is performed where the ghost state allows it.  Such a program is
also safe among other threads, if the ghost state describes what the thread knows of the shared one.
-/

namespace LlmdAsync.Prog

variable {ι : Type} {ρ : ι → Type} {α β : Type}

/-- The program performs these actions with these answers and returns. -/
inductive Path : Prog ι ρ α → List (Sigma ρ) → α → Prop
  | done (a : α) : Path (.done a) [] a
  | act {i : ι} {k : ρ i → Prog ι ρ α} (r : ρ i) {tr : List (Sigma ρ)} {a : α}
    (h : Path (k r) tr a) : Path (.act i k) (⟨i, r⟩ :: tr) a

variable {a : α} {tr : List (Sigma ρ)} {b : β} {p : Prog ι ρ α} {f : α → Prog ι ρ β}

lemma path_pure {b : α} (h : Path (pure a : Prog ι ρ α) tr b) :
    tr = [] ∧ b = a := by
  cases h
  exact ⟨rfl, rfl⟩

/-- A path that starts with an action. -/
lemma path_step {i : ι} {f : ρ i → Prog ι ρ β}
    (h : Path (perform i >>= f) tr b) : ∃ r tr', tr = ⟨i, r⟩ :: tr' ∧ Path (f r) tr' b := by
  cases h with
  | act r h => exact ⟨r, _, rfl, h⟩

lemma path_perform {i : ι} {r : ρ i}
    (h : Path (perform i : Prog ι ρ (ρ i)) tr r) : tr = [⟨i, r⟩] := by
  cases h with
  | act r h =>
    cases h
    rfl

/-- A path through a sequence is one through each part. -/
lemma path_bind
    (h : Path (p >>= f) tr b) : ∃ tr₁ tr₂ a, tr = tr₁ ++ tr₂ ∧ Path p tr₁ a ∧ Path (f a) tr₂ b := by
  induction p generalizing tr with
  | done a => exact ⟨[], tr, a, rfl, .done a, h⟩
  | act i k ih =>
    cases h with
    | act r h =>
      obtain ⟨tr₁, tr₂, a, rfl, hp, hf⟩ := ih r h
      exact ⟨⟨i, r⟩ :: tr₁, tr₂, a, rfl, .act r hp, hf⟩

/-- Paths through the parts make one through the sequence. -/
lemma Path.bind {tr₁ tr₂ : List (Sigma ρ)}
    (hp : Path p tr₁ a) (hf : Path (f a) tr₂ b) : Path (p >>= f) (tr₁ ++ tr₂) b := by
  induction hp with
  | done a => exact hf
  | act r _ ih => exact .act r (ih hf)

lemma bind_bind {γ : Type} (p : Prog ι ρ α) (f : α → Prog ι ρ β) (g : β → Prog ι ρ γ) :
    p >>= f >>= g = p >>= fun a => f a >>= g := by
  induction p with
  | done a => rfl
  | act i k ih => exact congrArg (Prog.act i) (funext fun r => ih r)

/-- What holds of all actions holds along every path. -/
lemma Always.path {N : ι → Prop} (hN : p.Always N) (hp : Path p tr a) : ∀ e ∈ tr, N e.1 := by
  induction hp with
  | done a => exact fun e he => absurd he List.not_mem_nil
  | @act i k r tr a _ ih =>
    intro e he
    rcases List.mem_cons.mp he with rfl | he
    · exact hN.1
    · exact ih (hN.2 r) e he

/-- Every value the program can return satisfies `Q`. -/
def Returns (Q : α → Prop) : Prog ι ρ α → Prop
  | .done a => Q a
  | .act _ k => ∀ r, (k r).Returns Q

lemma Returns.bind {Q : β → Prop}
    (h : p.Returns fun a => (f a).Returns Q) : (p >>= f).Returns Q := by
  induction p with
  | done a => exact h
  | act i k ih => exact fun r => ih r (h r)

/-- What a sequence returns, its parts return. -/
lemma Returns.of_bind {Q : β → Prop} (h : (p >>= f).Returns Q) :
    p.Returns fun a => (f a).Returns Q := by
  induction p with
  | done a => exact h
  | act i k ih => exact fun r => ih r (h r)

lemma Returns.weaken {Q Q' : α → Prop} (h : p.Returns Q) (hQ : ∀ a, Q a → Q' a) :
    p.Returns Q' := by
  induction p with
  | done a => exact hQ a h
  | act i k ih => exact fun r => ih r (h r)

/-- Every path ends with such a value. -/
lemma Returns.path {Q : α → Prop} (h : p.Returns Q) (hp : Path p tr a) : Q a := by
  induction hp with
  | done a => exact h
  | act r _ ih => exact ih (h r)

/-- With some answers, the value the program returns satisfies `Q`. -/
def CanReturn (Q : α → Prop) : Prog ι ρ α → Prop
  | .done a => Q a
  | .act _ k => ∃ r, (k r).CanReturn Q

lemma CanReturn.bind {Q : β → Prop}
    (h : p.CanReturn fun a => (f a).CanReturn Q) : (p >>= f).CanReturn Q := by
  induction p with
  | done a => exact h
  | act i k ih =>
    obtain ⟨r, hr⟩ := h
    exact ⟨r, ih r hr⟩

lemma CanReturn.weaken {Q Q' : α → Prop} (h : p.CanReturn Q) (hQ : ∀ a, Q a → Q' a) :
    p.CanReturn Q' := by
  induction p with
  | done a => exact hQ a h
  | act i k ih =>
    obtain ⟨r, hr⟩ := h
    exact ⟨r, ih r hr⟩

/-- The value also has what every value has. -/
lemma CanReturn.returns {Q Q' : α → Prop} (h : p.CanReturn Q) (h' : p.Returns Q') :
    p.CanReturn fun a => Q a ∧ Q' a := by
  induction p with
  | done a => exact ⟨h, h'⟩
  | act i k ih =>
    obtain ⟨r, hr⟩ := h
    exact ⟨r, ih r hr (h' r)⟩

/-- Some path ends with such a value. -/
lemma CanReturn.path {Q : α → Prop} (h : p.CanReturn Q) : ∃ tr a, Path p tr a ∧ Q a := by
  induction p with
  | done a => exact ⟨[], a, .done a, h⟩
  | act i k ih =>
    obtain ⟨r, hr⟩ := h
    obtain ⟨tr, a, hp, ha⟩ := ih r hr
    exact ⟨_, a, .act r hp, ha⟩

/-- A program whose actions are actions of a larger system. -/
def embed {ι' : Type} {ρ' : ι' → Type} (e : ι → ι') (answer : (i : ι) → ρ' (e i) → ρ i) :
    Prog ι ρ α → Prog ι' ρ' α
  | .done a => .done a
  | .act i k => .act (e i) fun r => (k (answer i r)).embed e answer

lemma always_embed {ι' : Type} {ρ' : ι' → Type} {e : ι → ι'} {answer : (i : ι) → ρ' (e i) → ρ i}
    {N : ι' → Prop} (hN : ∀ i, N (e i)) (p : Prog ι ρ α) : (p.embed e answer).Always N := by
  induction p with
  | done a => exact trivial
  | act i k ih => exact ⟨hN i, fun r => ih (answer i r)⟩

/-! ### Ghost states -/

section Follows

variable {γ : Type} (pre : ι → γ → Prop) (upd : (i : ι) → ρ i → γ → γ)

/-- Started with this ghost state, the program performs every action where `pre` allows it and
returns with `Q`. -/
def Follows : Prog ι ρ α → (α → γ → Prop) → γ → Prop
  | .done a, Q, g => Q a g
  | .act i k, Q, g => pre i g ∧ ∀ r, (k r).Follows Q (upd i r g)

variable {a : α} {Q : α → γ → Prop} {g : γ} {p : Prog ι ρ α} {tr : List (Sigma ρ)} {σ : Type}

@[simp] lemma follows_pure :
    (pure a : Prog ι ρ α).Follows pre upd Q g ↔ Q a g := Iff.rfl

@[simp] lemma follows_bind {f : α → Prog ι ρ β} {Q : β → γ → Prop} :
    (p >>= f).Follows pre upd Q g ↔
      p.Follows pre upd (fun a g' => (f a).Follows pre upd Q g') g := by
  induction p generalizing g with
  | done a => exact Iff.rfl
  | act i k ih => exact and_congr_right fun _ => forall_congr' fun r => ih r

variable {pre upd}

/-- The rule for an action: it is allowed, and the rest follows whatever the answer. -/
lemma Follows.step {i : ι} {f : ρ i → Prog ι ρ β} {Q : β → γ → Prop} (hi : pre i g)
    (h : ∀ r, (f r).Follows pre upd Q (upd i r g)) : (perform i >>= f).Follows pre upd Q g :=
  ⟨hi, h⟩

/-- The rule for a sequence. -/
lemma Follows.bind {f : α → Prog ι ρ β} {Q : β → γ → Prop}
    (h : p.Follows pre upd (fun a g' => (f a).Follows pre upd Q g') g) :
    (p >>= f).Follows pre upd Q g := (follows_bind _ _).mpr h

/-- The rule of consequence. -/
lemma Follows.weaken {Q' : α → γ → Prop}
    (h : p.Follows pre upd Q g) (hQ : ∀ a g, Q a g → Q' a g) : p.Follows pre upd Q' g := by
  induction p generalizing g with
  | done a => exact hQ a g h
  | act i k ih => exact ⟨h.1, fun r => ih r (h.2 r)⟩

/-- Actions that are always allowed and change nothing. -/
lemma Follows.of_always {N : ι → Prop} (hN : ∀ i, N i → ∀ g, pre i g ∧ ∀ r, upd i r g = g)
    (hp : p.Always N) (g : γ) : p.Follows pre upd (fun _ g' => g' = g) g := by
  induction p with
  | done a => exact rfl
  | act i k ih =>
    refine ⟨(hN i hp.1 g).1, fun r => ?_⟩
    rw [(hN i hp.1 g).2 r]
    exact ih r (hp.2 r)

/-- What the program returns anyway may be used. -/
lemma Follows.returns {Q' : α → Prop} (h : p.Follows pre upd Q g) (h' : p.Returns Q') :
    p.Follows pre upd (fun a g => Q a g ∧ Q' a) g := by
  induction p generalizing g with
  | done a => exact ⟨h, h'⟩
  | act i k ih => exact ⟨h.1, fun r => ih r (h.2 r) (h' r)⟩

/-- In a larger system the program follows any rule that its own simulates. -/
lemma Follows.embed {ι' : Type} {ρ' : ι' → Type} {γ' : Type} {e : ι → ι'}
    {answer : (i : ι) → ρ' (e i) → ρ i} {pre' : ι' → γ' → Prop} {upd' : (i : ι') → ρ' i → γ' → γ'}
    {A : γ → γ' → Prop} (hA : ∀ i g g', pre i g → A g g' →
      pre' (e i) g' ∧ ∀ r, A (upd i (answer i r) g) (upd' (e i) r g'))
    {g' : γ'} (h : p.Follows pre upd Q g)
    (hg : A g g') : (p.embed e answer).Follows pre' upd' (fun a g' => ∃ g, Q a g ∧ A g g') g' := by
  induction p generalizing g g' with
  | done a => exact ⟨g, h, hg⟩
  | act i k ih =>
    obtain ⟨hpre, hupd⟩ := hA i g g' h.1 hg
    exact ⟨hpre, fun r => ih (answer i r) (h.2 (answer i r)) (hupd r)⟩

/-- What every step passes on holds between the ends of a path. -/
lemma Follows.path {J : List (Sigma ρ) → γ → γ → Prop} (hnil : ∀ g, J [] g g)
    (hcons : ∀ i r tr g g', pre i g → J tr (upd i r g) g' → J (⟨i, r⟩ :: tr) g g')
    (h : p.Follows pre upd Q g) (hp : Path p tr a) : ∃ g', Q a g' ∧ J tr g g' := by
  induction hp generalizing g with
  | done a => exact ⟨g, h, hnil g⟩
  | @act i k r tr a _ ih =>
    obtain ⟨g', hQ, hJ⟩ := ih (h.2 r)
    exact ⟨g', hQ, hcons i r tr g g' h.1 hJ⟩

/-- The ghost state after a path. -/
def after (upd : (i : ι) → ρ i → γ → γ) (tr : List (Sigma ρ)) (g : γ) : γ :=
  tr.foldl (fun g e => upd e.1 e.2 g) g

/-- The ghost state along a path, and what allows each of its actions. -/
lemma Follows.along (h : p.Follows pre upd Q g) (hp : Path p tr a) : Q a (after upd tr g) ∧
      ∀ tr₁ i r tr₂, tr = tr₁ ++ ⟨i, r⟩ :: tr₂ → pre i (after upd tr₁ g) := by
  induction hp generalizing g with
  | done a => exact ⟨h, fun tr₁ i r tr₂ heq => absurd heq.symm (by simp)⟩
  | @act i k r tr a _ ih =>
    obtain ⟨hQ, htr⟩ := ih (h.2 r)
    refine ⟨hQ, fun tr₁ j r' tr₂ heq => ?_⟩
    cases tr₁ with
    | nil =>
      obtain ⟨rfl, -⟩ := Sigma.mk.inj (List.cons.inj heq).1
      exact h.1
    | cons e tr₁ =>
      obtain ⟨rfl, rfl⟩ := List.cons.inj heq
      exact htr tr₁ j r' tr₂ rfl

/-- The actions of a path, with their answers, take one state to another. -/
def Leads {σ : Type} (step : (i : ι) → σ → ρ i → σ → Prop) : List (Sigma ρ) → σ → σ → Prop
  | [], s, s' => s' = s
  | e :: tr, s, s' => ∃ s₁, step e.1 s e.2 s₁ ∧ Leads step tr s₁ s'

/-- Steps that another relation allows too. -/
lemma Leads.mono {step step' : (i : ι) → σ → ρ i → σ → Prop} {s s' : σ}
    (hstep : ∀ e ∈ tr, ∀ s s', step e.1 s e.2 s' → step' e.1 s e.2 s')
    (h : Leads step tr s s') : Leads step' tr s s' := by
  induction tr generalizing s with
  | nil => exact h
  | cons e tr ih =>
    obtain ⟨s₁, hs₁, hrest⟩ := h
    exact ⟨s₁, hstep e List.mem_cons_self s s₁ hs₁,
      ih (fun e he => hstep e (List.mem_cons_of_mem _ he)) hrest⟩

/-- A ghost state that describes the shared one does so to the end. -/
lemma Follows.leads {step : (i : ι) → σ → ρ i → σ → Prop} {N : Sigma ρ → Prop} {A : γ → σ → Prop}
    (hstep : ∀ i r g s s', N ⟨i, r⟩ → pre i g → A g s → step i s r s' → A (upd i r g) s')
    (h : p.Follows pre upd Q g) (hp : Path p tr a) (hN : ∀ e ∈ tr, N e) {s s' : σ} (hs : A g s)
    (hlead : Leads step tr s s') : ∃ g', Q a g' ∧ A g' s' := by
  induction hp generalizing g s with
  | done a => exact ⟨g, h, hlead ▸ hs⟩
  | @act i k r tr a _ ih =>
    obtain ⟨s₁, hs₁, hlead⟩ := hlead
    have hA := hstep i r g s s₁ (hN _ List.mem_cons_self) h.1 hs hs₁
    exact ih (h.2 r) (fun e he => hN e (List.mem_cons_of_mem _ he)) hA hlead

/-- The ghost state is the list of the actions performed so far. -/
abbrev Heeds (pre : ι → List (Sigma ρ) → Prop) (p : Prog ι ρ α) (Q : α → List (Sigma ρ) → Prop)
    (past : List (Sigma ρ)) : Prop :=
  p.Follows pre (fun i r past => past ++ [⟨i, r⟩]) Q past

section Heeds

variable {pre : ι → List (Sigma ρ) → Prop} {Q : α → List (Sigma ρ) → Prop} {past : List (Sigma ρ)}

/-- Each action of a path is allowed by those before it. -/
lemma Heeds.path (h : p.Heeds pre Q past) (hp : Path p tr a) :
    ∀ tr₁ i r tr₂, tr = tr₁ ++ ⟨i, r⟩ :: tr₂ → pre i (past ++ tr₁) := by
  have hafter : ∀ tr₁ past : List (Sigma ρ),
      after (fun i r past => past ++ [⟨i, r⟩]) tr₁ past = past ++ tr₁ := by
    intro tr₁
    induction tr₁ with
    | nil => exact fun past => (List.append_nil past).symm
    | cons e tr₁ ih => exact fun past => (ih (past ++ [e])).trans (List.append_cons past e tr₁).symm
  exact fun tr₁ i r tr₂ heq => hafter tr₁ past ▸ (Follows.along h hp).2 tr₁ i r tr₂ heq

/-- The actions so far are never forgotten. -/
lemma Heeds.extends (h : p.Heeds pre (fun a past' => past <+: past' → Q a past') past) :
    p.Heeds pre Q past := by
  suffices hkeep : ∀ past', past <+: past' →
      p.Heeds pre (fun a past'' => past <+: past'' → Q a past'') past' → p.Heeds pre Q past' from
    hkeep past (List.prefix_refl past) h
  clear h
  induction p with
  | done a => exact fun past' hpast h => h hpast
  | act i k ih =>
    exact fun past' hpast h =>
      ⟨h.1, fun r => ih r _ (hpast.trans (List.prefix_append past' _)) (h.2 r)⟩

/-- The rule for an action, which then has happened. -/
lemma Heeds.step {i : ι} {f : ρ i → Prog ι ρ β} {Q : β → List (Sigma ρ) → Prop} (hi : pre i past)
    (h : ∀ r past', past <+: past' → ⟨i, r⟩ ∈ past' → (f r).Heeds pre Q past') :
    (perform i >>= f).Heeds pre Q past :=
  ⟨hi, fun r => h r _ (List.prefix_append past _) (List.mem_append_right past List.mem_cons_self)⟩

/-- The rule for a sequence. -/
lemma Heeds.bind {f : α → Prog ι ρ β} {R : β → List (Sigma ρ) → Prop} (hp : p.Heeds pre Q past)
    (h : ∀ a past', past <+: past' → Q a past' → (f a).Heeds pre R past') :
    (p >>= f).Heeds pre R past :=
  Follows.bind (Heeds.extends (hp.weaken fun a past' hQ hpast => h a past' hpast hQ))

/-- Actions that are always allowed. -/
lemma Heeds.of_always {N : ι → Prop} (hN : ∀ i, N i → ∀ past, pre i past) (hp : p.Always N) :
    p.Heeds pre (fun _ _ => True) past := by
  induction p generalizing past with
  | done a => exact trivial
  | act i k ih => exact ⟨hN i hp.1 past, fun r => ih r (hp.2 r)⟩

end Heeds

/-- Among other threads the program is safe, if these keep what the ghost state says. -/
lemma Follows.safe {τ χ ο ε : Type} {S : ThreadSystem ι ρ τ σ χ ο ε} {ok : Discipline ι τ σ χ ο ε}
    {I : σ → Prop} {R : τ → σ → σ → Prop} {G : τ → ι → σ → Prop} {t : τ} {A : γ → σ → Prop}
    (hA : ∀ g s s', A g s → R t s s' → A g s')
    (hstep : ∀ i g s₁ c r s₂, pre i g → A g s₁ → I s₁ → ok.act t i c s₁ →
      S.exec t i c s₁ = some (r, s₂) → G t i s₁ ∧ ThreadSystem.Keeps I R t s₁ s₂ ∧ A (upd i r g) s₂)
    (h : p.Follows pre upd Q g) {s : σ} (hs : A g s) :
    S.Safe ok I R G t p (fun a s' => ∃ g', Q a g' ∧ A g' s') s := by
  induction p generalizing g s with
  | done a => exact ⟨g, h, hs⟩
  | act i k ih =>
    intro s₁ c r s₂ hR hI hok hexec
    obtain ⟨hG, hkeep, hA₂⟩ := hstep i g s₁ c r s₂ h.1 (hA g s s₁ hs hR) hI hok hexec
    exact ⟨hG, hkeep, ih r (h.2 r) hA₂⟩

end Follows

end LlmdAsync.Prog
