import LlmdAsync.Foundation.Custody
import LlmdAsync.Foundation.Paths

/-!
# Programs that answer for what they have

Threads share a record of who has what, and every action has its `Terms`: the things that it needs,
the things that it leaves in their place, facts that it relies on and facts that it establishes.
`Turns K M p X` is a triple: knowing the facts `K`, the program turns the things `M` into `X`,
whatever else the thread has.  Facts are never forgotten.

`ThreadSystem.Reachable.accounted` puts the threads together: if every operation turns nothing into
nothing, and every action performed on its terms keeps an invariant, the things of the other threads
and all facts, then the invariant holds along every run and threads act on their terms.
-/

namespace LlmdAsync

/-- The terms on which actions are performed. -/
structure Terms (ι : Type) (ρ : ι → Type) (θ φ : Type) where
  /-- What the action needs. -/
  needs : ι → Multiset θ
  /-- What it leaves in the place of that. -/
  yields : (i : ι) → ρ i → Multiset θ
  /-- What must be known before. -/
  relies : ι → List φ
  /-- What is known after. -/
  learns : (i : ι) → ρ i → List φ
  /-- A condition on the action alone. -/
  sound : ι → Prop

/-- What a thread has and what it knows. -/
structure Account (θ φ : Type) where
  own : Multiset θ
  facts : List φ

namespace Terms

variable {ι : Type} {ρ : ι → Type} {θ φ : Type} [DecidableEq θ] (T : Terms ι ρ θ φ)

/-- The action is performed on its terms. -/
structure Permits (i : ι) (g : Account θ φ) : Prop where
  needs : T.needs i ≤ g.own
  relies : ∀ f ∈ T.relies i, f ∈ g.facts
  sound : T.sound i

/-- The account after an action. -/
def enter (i : ι) (r : ρ i) (g : Account θ φ) : Account θ φ :=
  ⟨g.own - T.needs i + T.yields i r, T.learns i r ++ g.facts⟩

/-- The program performs all its actions on their terms, and returns with `Q`. -/
abbrev Obeys {α : Type} (p : Prog ι ρ α) (Q : α → Account θ φ → Prop) (g : Account θ φ) : Prop :=
  p.Follows T.Permits T.enter Q g

/-- Knowing the facts `K`, the program turns the things `M` into `X`. -/
def Turns {α : Type} (K : List φ) (M : Multiset θ) (p : Prog ι ρ α) (X : α → Multiset θ) : Prop :=
  ∀ g F, (∀ f ∈ K, f ∈ g.facts) → g.own = M + F →
    T.Obeys p (fun a g' => g'.own = X a + F ∧ ∀ f ∈ g.facts, f ∈ g'.facts) g

variable {T} {α β : Type} {K : List φ} {M : Multiset θ}

namespace Turns

lemma pure {a : α} {X : α → Multiset θ} (h : M = X a) : T.Turns K M (Pure.pure a) X :=
  fun _ _ _ hown => ⟨h ▸ hown, fun _ => id⟩

lemma step {i : ι} {f : ρ i → Prog ι ρ β} {F : Multiset θ} {X : β → Multiset θ} (hi : T.sound i)
    (hM : M = T.needs i + F) (hK : ∀ f ∈ T.relies i, f ∈ K)
    (h : ∀ r, T.Turns (T.learns i r ++ K) (T.yields i r + F) (f r) X) :
    T.Turns K M (Prog.perform i >>= f) X := by
  intro g F' hfacts hown
  rw [hM, add_assoc] at hown
  refine Prog.Follows.step ⟨?_, fun f hf => hfacts f (hK f hf), hi⟩ fun r => ?_
  · rw [hown]
    exact Multiset.le_add_right _ _
  · refine (h r (T.enter i r g) F' ?_ ?_).weaken ?_
    · intro f hf
      rcases List.mem_append.mp hf with hf | hf
      · exact List.mem_append_left _ hf
      · exact List.mem_append_right _ (hfacts f hf)
    · rw [enter, hown, add_tsub_cancel_left, add_comm (F + F'), add_assoc]
    · exact fun b g' hb => ⟨hb.1, fun f hf => hb.2 f (List.mem_append_right _ hf)⟩

lemma perform {i : ι} {F : Multiset θ} {X : ρ i → Multiset θ} (hi : T.sound i)
    (hM : M = T.needs i + F) (hK : ∀ f ∈ T.relies i, f ∈ K) (h : ∀ r, T.yields i r + F = X r) :
    T.Turns K M (Prog.perform i) X :=
  step hi hM hK fun r => pure (h r)

lemma bind {p : Prog ι ρ α} {f : α → Prog ι ρ β} {N F : Multiset θ} {Y : α → Multiset θ}
    {X : β → Multiset θ} (hp : T.Turns K N p Y) (hM : M = N + F)
    (hf : ∀ a, T.Turns K (Y a + F) (f a) X) : T.Turns K M (p >>= f) X := by
  intro g F' hfacts hown
  rw [hM, add_assoc] at hown
  refine (Prog.follows_bind _ _).mpr ((hp g (F + F') hfacts hown).weaken fun a g' hY => ?_)
  rw [← add_assoc] at hY
  refine (hf a g' F' (fun f hf => hY.2 f (hfacts f hf)) hY.1).weaken ?_
  exact fun b g'' hX => ⟨hX.1, fun f hf => hX.2 f (hY.2 f hf)⟩

lemma frame {p : Prog ι ρ α} {N F : Multiset θ} {Y X : α → Multiset θ} (hp : T.Turns K N p Y)
    (hM : M = N + F) (hX : ∀ a, Y a + F = X a) : T.Turns K M p X := by
  intro g F' hfacts hown
  rw [hM, add_assoc] at hown
  refine (hp g (F + F') hfacts hown).weaken fun a g' h => ⟨?_, h.2⟩
  rw [h.1, ← add_assoc, hX]

lemma knowing {p : Prog ι ρ α} {K' : List φ} {X : α → Multiset θ} (hp : T.Turns K M p X)
    (hK : ∀ f ∈ K, f ∈ K') : T.Turns K' M p X :=
  fun g F hfacts => hp g F fun f hf => hfacts f (hK f hf)

end Turns

end Terms

/-! ### Threads with accounts -/

namespace ThreadSystem

variable {ι : Type} {ρ : ι → Type} {τ σ χ ο ε π θ φ : Type} [DecidableEq π] [DecidableEq θ]
  {S : ThreadSystem ι ρ τ σ χ ο ε} {T : Terms ι ρ θ φ} {I : σ → Prop}
  {ledger : σ → Custody π θ} {hand : τ → π} {Holds : φ → σ → Prop}

/-- What is known about a thread: an idle one has nothing, and a running one performs its actions on
their terms, has what it believes to have and knows what is true. -/
def Accounted (T : Terms ι ρ θ φ) (ledger : σ → Custody π θ) (hand : τ → π)
    (Holds : φ → σ → Prop) (t : τ) (s : σ) : Option (Prog ι ρ Unit) → Prop
  | none => (ledger s).held (hand t) = 0
  | some p => ∃ g : Account θ φ, T.Obeys p (fun _ g' => g'.own = 0) g ∧
      (ledger s).held (hand t) = g.own ∧ ∀ f ∈ g.facts, Holds f s

/-- An action that is performed on its terms keeps the invariant, the things of the other threads
and all facts. -/
def Honours (S : ThreadSystem ι ρ τ σ χ ο ε) (T : Terms ι ρ θ φ) (I : σ → Prop)
    (ledger : σ → Custody π θ) (hand : τ → π) (Holds : φ → σ → Prop) : Prop :=
  ∀ t i c s r s', I s → T.needs i ≤ (ledger s).held (hand t) → (∀ f ∈ T.relies i, Holds f s) →
    T.sound i → S.exec t i c s = some (r, s') →
    I s' ∧ (ledger s').held (hand t) = (ledger s).held (hand t) - T.needs i + T.yields i r ∧
      (∀ u, u ≠ t → (ledger s').held (hand u) = (ledger s).held (hand u)) ∧
      (∀ f, Holds f s → Holds f s') ∧ ∀ f ∈ T.learns i r, Holds f s'

lemma Accounted.keep {t : τ} {s s' : σ} {p : Option (Prog ι ρ Unit)}
    (h : Accounted T ledger hand Holds t s p)
    (hheld : (ledger s').held (hand t) = (ledger s).held (hand t))
    (hfacts : ∀ f, Holds f s → Holds f s') : Accounted T ledger hand Holds t s' p := by
  cases p with
  | none => exact hheld.trans h
  | some p =>
    obtain ⟨g, hp, hown, hg⟩ := h
    exact ⟨g, hp, hheld.trans hown, fun f hf => hfacts f (hg f hf)⟩

/-- If every operation turns nothing into nothing, then the invariant holds along every run, and
everything is accounted for. -/
theorem Reachable.accounted [DecidableEq τ] {ok : Discipline ι τ σ χ ο ε} {init : σ}
    (hinit : I init ∧ ∀ t, (ledger init).held (hand t) = 0)
    (hprogram : ∀ t o, T.Turns [] 0 (S.program t o) fun _ => 0)
    (hexec : Honours S T I ledger hand Holds) (henv : ∀ e s s', I s → S.env e s = some s' → I s' ∧
      (∀ t, (ledger s').held (hand t) = (ledger s).held (hand t)) ∧ ∀ f, Holds f s → Holds f s')
    (hkills : ∀ e t, S.kills e t = false) {P : Pool ι ρ τ σ} (h : S.Reachable ok init P) :
    I P.state ∧ ∀ t, Accounted T ledger hand Holds t P.state (P.prog t) := by
  induction h with
  | refl => exact hinit
  | @tail P P' _ hstep ih =>
    obtain ⟨hI, hacc⟩ := ih
    obtain ⟨l, -, hnext⟩ := hstep
    cases l with
    | start t o =>
      obtain ⟨hidle, -, rfl⟩ := next_start hnext
      refine ⟨hI, fun u => ?_⟩
      by_cases hu : u = t
      · subst hu
        have hnothing := hacc u
        rw [hidle] at hnothing
        simp only [Function.update_self]
        refine ⟨⟨0, []⟩, ?_, hnothing, fun f hf => absurd hf List.not_mem_nil⟩
        exact (hprogram u o ⟨0, []⟩ 0 (fun f hf => hf) rfl).weaken fun _ _ h => h.1
      · simpa [Function.update_of_ne hu] using hacc u
    | act t c =>
      obtain ⟨i, k, r, s, hprog, hx, rfl⟩ := next_act hnext
      have ht := hacc t
      rw [hprog] at ht
      obtain ⟨g, hp, hown, hg⟩ := ht
      obtain ⟨hI', hself, hothers, hkept, hlearns⟩ := hexec t i c P.state r s hI
        (hown ▸ hp.1.needs) (fun f hf => hg f (hp.1.relies f hf)) hp.1.sound hx
      refine ⟨hI', fun u => ?_⟩
      by_cases hu : u = t
      · subst hu
        simp only [Function.update_self]
        refine ⟨T.enter i r g, hp.2 r, ?_, fun f hf => ?_⟩
        · rw [hself, hown]
          rfl
        · rcases List.mem_append.mp hf with hf | hf
          · exact hlearns f hf
          · exact hkept f (hg f hf)
      · simpa [Function.update_of_ne hu] using (hacc u).keep (hothers u hu) hkept
    | finish t =>
      obtain ⟨a, hprog, rfl⟩ := next_finish hnext
      refine ⟨hI, fun u => ?_⟩
      by_cases hu : u = t
      · subst hu
        have ht := hacc u
        rw [hprog] at ht
        obtain ⟨g, hp, hown, -⟩ := ht
        simpa [Accounted] using hown.trans hp
      · simpa [Function.update_of_ne hu] using hacc u
    | env e =>
      obtain ⟨s, hx, rfl⟩ := Option.map_eq_some_iff.mp hnext
      obtain ⟨hI', hheld, hkept⟩ := henv e P.state s hI hx
      refine ⟨hI', fun u => ?_⟩
      simpa [hkills] using (hacc u).keep (hheld u) hkept

lemma Accounted.next {t : τ} {s : σ} {i : ι} {k : ρ i → Prog ι ρ Unit}
    (h : Accounted T ledger hand Holds t s (some (.act i k))) :
    T.needs i ≤ (ledger s).held (hand t) ∧ (∀ f ∈ T.relies i, Holds f s) ∧ T.sound i := by
  obtain ⟨g, hp, hown, hg⟩ := h
  exact ⟨hown ▸ hp.1.needs, fun f hf => hg f (hp.1.relies f hf), hp.1.sound⟩

end ThreadSystem

end LlmdAsync
