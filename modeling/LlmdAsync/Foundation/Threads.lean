import Mathlib

/-!
# Threads over a shared state

A small library for concurrent code.  A `Prog` is the code of one thread: it performs atomic actions
and goes on with their answers.  A `ThreadSystem` says what an action does to the shared state,
which programs a thread may start, and what the environment can do.  A `Pool` is a shared state
together with the programs that are still running; its labelled steps interleave them in any order.

Runs can be restricted by a `Discipline`, a condition on the steps taken.  An invariant of all runs
is proved thread by thread: `Safe` says that a program, disturbed by the other threads only in the
way described by a rely relation, keeps the invariant and disturbs the others only in the way they
rely on.  `ThreadSystem.Reachable.safe` puts the threads together.
-/

namespace LlmdAsync

open Option Function

/-- A program that performs actions `i : ι`, is answered by `ρ i` and returns an `α`. -/
inductive Prog (ι : Type) (ρ : ι → Type) (α : Type) : Type where
  /-- The program has returned. -/
  | done (a : α)
  /-- The program performs an action and goes on with the answer. -/
  | act (i : ι) (k : ρ i → Prog ι ρ α)

namespace Prog

variable {ι : Type} {ρ : ι → Type} {α β : Type}

/-- Run one program and go on with its value. -/
def bind : Prog ι ρ α → (α → Prog ι ρ β) → Prog ι ρ β
  | done a, f => f a
  | act i k, f => act i fun r => (k r).bind f

instance : Monad (Prog ι ρ) where
  pure := done
  bind := bind

def perform (i : ι) : Prog ι ρ (ρ i) := act i done

/-- Every action the program can perform satisfies `N`. -/
def Always (N : ι → Prop) : Prog ι ρ α → Prop
  | done _ => True
  | act i k => N i ∧ ∀ r, (k r).Always N

variable {N : ι → Prop}

@[simp] lemma always_perform {i : ι} :
    (perform i : Prog ι ρ (ρ i)).Always N ↔ N i :=
  ⟨fun h => h.1, fun h => ⟨h, fun _ => trivial⟩⟩

lemma Always.pure {a : α} : (Pure.pure a : Prog ι ρ α).Always N := trivial

lemma Always.step {i : ι} {f : ρ i → Prog ι ρ β} (hi : N i)
    (hf : ∀ r, (f r).Always N) : (perform i >>= f).Always N := ⟨hi, hf⟩

lemma Always.bind {p : Prog ι ρ α} {f : α → Prog ι ρ β} (hp : p.Always N)
    (hf : ∀ a, (f a).Always N) : (p >>= f).Always N := by
  induction p with
  | done a => exact hf a
  | act i k ih => exact ⟨hp.1, fun r => ih r (hp.2 r)⟩

lemma Always.mono {N' : ι → Prop} {p : Prog ι ρ α} (hp : p.Always N) (h : ∀ i, N i → N' i) :
    p.Always N' := by
  induction p with
  | done a => exact trivial
  | act i k ih => exact ⟨h i hp.1, fun r => ih r (hp.2 r)⟩

end Prog

/-- What actions and environment do to a shared state `σ`.  Threads are named by `τ`, the choices an
action leaves open are `χ`, the operations a thread may run are `ο`, and environment steps are
`ε`. -/
structure ThreadSystem (ι : Type) (ρ : ι → Type) (τ σ χ ο ε : Type) where
  /-- The answer of an action and the state after it, if the action is possible. -/
  exec : τ → (i : ι) → χ → σ → Option (ρ i × σ)
  /-- The code of an operation. -/
  program : τ → ο → Prog ι ρ Unit
  /-- A thread may start the operation now. -/
  starts : τ → ο → σ → Bool
  /-- The state after an environment step, if the step is possible. -/
  env : ε → σ → Option σ
  /-- The thread dies in the environment step. -/
  kills : ε → τ → Bool

/-- A shared state and the programs running over it. -/
structure Pool (ι : Type) (ρ : ι → Type) (τ σ : Type) where
  state : σ
  prog : τ → Option (Prog ι ρ Unit)

/-- The steps of a pool. -/
inductive Label (τ χ ο ε : Type) where
  /-- An idle thread starts an operation. -/
  | start (t : τ) (o : ο)
  /-- A thread performs its next action. -/
  | act (t : τ) (c : χ)
  /-- A thread whose operation has returned becomes idle. -/
  | finish (t : τ)
  /-- The environment acts. -/
  | env (e : ε)

/-- A condition on the steps of a run. -/
structure Discipline (ι τ σ χ ο ε : Type) where
  act : τ → ι → χ → σ → Prop
  start : τ → ο → σ → Prop
  env : ε → σ → Prop

namespace Discipline

variable {ι τ σ χ ο ε : Type}

def free : Discipline ι τ σ χ ο ε := ⟨fun _ _ _ _ => True, fun _ _ _ => True, fun _ _ => True⟩

/-- The steps of `ok` that start in a state with property `K`. -/
def assuming (ok : Discipline ι τ σ χ ο ε) (K : σ → Prop) : Discipline ι τ σ χ ο ε :=
  ⟨fun t i c s => ok.act t i c s ∧ K s, fun t o s => ok.start t o s ∧ K s,
    fun e s => ok.env e s ∧ K s⟩

/-- The steps of `ok` whose actions are in `N`. -/
def performing (ok : Discipline ι τ σ χ ο ε) (N : τ → ι → σ → Prop) : Discipline ι τ σ χ ο ε :=
  ⟨fun t i c s => ok.act t i c s ∧ N t i s, ok.start, ok.env⟩

end Discipline

namespace ThreadSystem

variable {ι : Type} {ρ : ι → Type} {τ σ χ ο ε : Type}

section Run

variable [DecidableEq τ]

def next (S : ThreadSystem ι ρ τ σ χ ο ε) (P : Pool ι ρ τ σ) :
    Label τ χ ο ε → Option (Pool ι ρ τ σ)
  | .start t o =>
    match P.prog t with
    | none =>
      if S.starts t o P.state then
        some ⟨P.state, Function.update P.prog t (some (S.program t o))⟩
      else none
    | some _ => none
  | .act t c =>
    match P.prog t with
    | some (.act i k) =>
      (S.exec t i c P.state).map fun rs => ⟨rs.2, Function.update P.prog t (some (k rs.1))⟩
    | _ => none
  | .finish t =>
    match P.prog t with
    | some (.done _) => some ⟨P.state, Function.update P.prog t none⟩
    | _ => none
  | .env e => (S.env e P.state).map fun s => ⟨s, fun t => if S.kills e t then none else P.prog t⟩

variable {S : ThreadSystem ι ρ τ σ χ ο ε} {P P' : Pool ι ρ τ σ} {t : τ}
  {ok : Discipline ι τ σ χ ο ε} {init : σ}

lemma next_start {o : ο} (h : S.next P (.start t o) = some P') :
    P.prog t = none ∧ S.starts t o P.state = true ∧
      P' = ⟨P.state, update P.prog t (some (S.program t o))⟩ := by
  simp only [next] at h
  split at h
  next hidle =>
    split at h
    next hs =>
      exact ⟨hidle, hs, (some.inj h).symm⟩
    · cases h
  · cases h

lemma next_act {c : χ} (h : S.next P (.act t c) = some P') :
    ∃ i k r s, P.prog t = some (.act i k) ∧ S.exec t i c P.state = some (r, s) ∧
      P' = ⟨s, update P.prog t (some (k r))⟩ := by
  simp only [next] at h
  split at h
  next i k hprog =>
    obtain ⟨⟨r, s⟩, hexec, rfl⟩ := map_eq_some_iff.mp h
    exact ⟨i, k, r, s, hprog, hexec, rfl⟩
  · cases h

lemma next_finish (h : S.next P (.finish t) = some P') :
    ∃ a, P.prog t = some (.done a) ∧ P' = ⟨P.state, update P.prog t none⟩ := by
  simp only [next] at h
  split at h
  next a hprog =>
    exact ⟨a, hprog, (some.inj h).symm⟩
  · cases h

/-- The step meets the discipline. -/
def Allowed (ok : Discipline ι τ σ χ ο ε) (P : Pool ι ρ τ σ) : Label τ χ ο ε → Prop
  | .start t o => ok.start t o P.state
  | .act t c => ∀ i k, P.prog t = some (.act i k) → ok.act t i c P.state
  | .finish _ => True
  | .env e => ok.env e P.state

def idle (s : σ) : Pool ι ρ τ σ := ⟨s, fun _ => none⟩

def Step (S : ThreadSystem ι ρ τ σ χ ο ε) (ok : Discipline ι τ σ χ ο ε)
    (P P' : Pool ι ρ τ σ) : Prop :=
  ∃ l, Allowed ok P l ∧ S.next P l = some P'

/-- A run that starts idle in `init` and meets the discipline at every step ends in this pool. -/
def Reachable (S : ThreadSystem ι ρ τ σ χ ο ε) (ok : Discipline ι τ σ χ ο ε) (init : σ)
    (P : Pool ι ρ τ σ) : Prop :=
  Relation.ReflTransGen (S.Step ok) (idle init) P

def run (S : ThreadSystem ι ρ τ σ χ ο ε) (P : Pool ι ρ τ σ) : List (Label τ χ ο ε) → Pool ι ρ τ σ
  | [] => P
  | l :: ls => S.run ((S.next P l).getD P) ls

/-- Every step the list takes passes the test. -/
def passes (S : ThreadSystem ι ρ τ σ χ ο ε) (test : Pool ι ρ τ σ → Label τ χ ο ε → Bool)
    (P : Pool ι ρ τ σ) : List (Label τ χ ο ε) → Bool
  | [] => true
  | l :: ls => ((S.next P l).isNone || test P l) && S.passes test ((S.next P l).getD P) ls

lemma passes_of_all (S : ThreadSystem ι ρ τ σ χ ο ε) {test : Label τ χ ο ε → Bool}
    {ls : List (Label τ χ ο ε)} (h : ls.all test = true) (P : Pool ι ρ τ σ) :
    S.passes (fun _ => test) P ls = true := by
  induction ls generalizing P with
  | nil => rfl
  | cons l ls ih =>
    rw [List.all_cons, Bool.and_eq_true] at h
    rw [passes, h.1, ih h.2, Bool.or_true, Bool.and_true]

lemma reachable_run_of_passes (S : ThreadSystem ι ρ τ σ χ ο ε)
    {test : Pool ι ρ τ σ → Label τ χ ο ε → Bool} (htest : ∀ P l, test P l = true → Allowed ok P l)
    {ls : List (Label τ χ ο ε)} (hls : S.passes test (idle init) ls = true) :
    S.Reachable ok init (S.run (idle init) ls) := by
  suffices h : ∀ P, S.Reachable ok init P → S.passes test P ls = true →
      S.Reachable ok init (S.run P ls) from h _ Relation.ReflTransGen.refl hls
  clear hls
  induction ls with
  | nil => exact fun P hP _ => hP
  | cons l ls ih =>
    intro P hP hls
    rw [passes, Bool.and_eq_true] at hls
    refine ih _ ?_ hls.2
    cases hl : S.next P l with
    | none => exact hP
    | some P' =>
      rw [hl] at hls
      exact hP.tail ⟨l, htest P l hls.1, hl⟩

lemma reachable_run (S : ThreadSystem ι ρ τ σ χ ο ε) (init : σ) (ls : List (Label τ χ ο ε)) :
    S.Reachable .free init (S.run (idle init) ls) := by
  refine reachable_run_of_passes S (fun P l _ => ?_)
    (passes_of_all S (List.all_eq_true.mpr fun l _ => rfl : ls.all (fun _ => true) = true) _)
  cases l with
  | act => exact fun _ _ _ => trivial
  | _ => exact trivial

lemma Reachable.assuming {K : σ → Prop} (hK : ∀ P, S.Reachable ok init P → K P.state)
    (h : S.Reachable ok init P) : S.Reachable (ok.assuming K) init P := by
  induction h with
  | refl => exact Relation.ReflTransGen.refl
  | @tail P₁ P₂ hreach hstep ih =>
    obtain ⟨l, hl, hnext⟩ := hstep
    refine ih.tail ⟨l, ?_, hnext⟩
    cases l with
    | start t o | env e => exact ⟨hl, hK _ hreach⟩
    | act t c => exact fun i k hp => ⟨hl i k hp, hK _ hreach⟩
    | finish t => exact trivial

lemma Reachable.mono {ok' : Discipline ι τ σ χ ο ε}
    (hact : ∀ t i c s, ok.act t i c s → ok'.act t i c s)
    (hstart : ∀ t o s, ok.start t o s → ok'.start t o s) (henv : ∀ e s, ok.env e s → ok'.env e s)
    (h : S.Reachable ok init P) : S.Reachable ok' init P := by
  refine Relation.ReflTransGen.mono ?_ _ _ h
  rintro P P' ⟨l, hl, hnext⟩
  refine ⟨l, ?_, hnext⟩
  cases l with
  | start t o => exact hstart _ _ _ hl
  | act t c => exact fun i k hp => hact _ _ _ _ (hl i k hp)
  | finish t => exact trivial
  | env e => exact henv _ _ hl

lemma Reachable.free (h : S.Reachable ok init P) : S.Reachable .free init P :=
  h.mono (fun _ _ _ _ _ => trivial) (fun _ _ _ _ => trivial) fun _ _ _ => trivial

lemma Reachable.prog {K : τ → Prog ι ρ Unit → Prop} (hstart : ∀ t o, K t (S.program t o))
    (hact : ∀ t i k r, K t (.act i k) → K t (k r)) (h : S.Reachable ok init P) :
    ∀ t p, P.prog t = some p → K t p := by
  induction h with
  | refl => exact nofun
  | @tail P P' _ hstep ih =>
    obtain ⟨l, -, hnext⟩ := hstep
    intro u p hp
    cases l with
    | start t o =>
      obtain ⟨-, -, rfl⟩ := next_start hnext
      by_cases hu : u = t
      · subst hu
        have heq : S.program u o = p := by simpa using hp
        exact heq ▸ hstart u o
      · exact ih u p (by simpa [update_of_ne hu] using hp)
    | act t c =>
      obtain ⟨i, k, r, s, hprog, -, rfl⟩ := next_act hnext
      by_cases hu : u = t
      · subst hu
        have heq : k r = p := by simpa using hp
        exact heq ▸ hact u i k r (ih u _ hprog)
      · exact ih u p (by simpa [update_of_ne hu] using hp)
    | finish t =>
      obtain ⟨a, -, rfl⟩ := next_finish hnext
      by_cases hu : u = t
      · subst hu
        simp at hp
      · exact ih u p (by simpa [update_of_ne hu] using hp)
    | env e =>
      obtain ⟨s, -, rfl⟩ := map_eq_some_iff.mp hnext
      by_cases hk : S.kills e u = true
      · simp [hk] at hp
      · exact ih u p (by simpa [hk] using hp)

lemma Reachable.guarded {G : τ → ι → σ → Prop} (hG : ∀ P, S.Reachable ok init P → ∀ t i k,
      P.prog t = some (.act i k) → G t i P.state)
    (h : S.Reachable ok init P) : S.Reachable (ok.performing G) init P := by
  induction h with
  | refl => exact Relation.ReflTransGen.refl
  | @tail P₁ P₂ hreach hstep ih =>
    obtain ⟨l, hl, hnext⟩ := hstep
    refine ih.tail ⟨l, ?_, hnext⟩
    cases l with
    | act t c => exact fun i k hp => ⟨hl i k hp, hG P₁ hreach t i k hp⟩
    | start t o | finish t | env e => exact hl

lemma Reachable.performing {N : τ → ι → Prop} (hN : ∀ t o, (S.program t o).Always (N t))
    (h : S.Reachable ok init P) : S.Reachable (ok.performing fun t i _ => N t i) init P :=
  h.guarded fun _ hreach t _ _ hp => (hreach.prog hN (fun _ _ _ r h => h.2 r) t _ hp).1

/-- A property of the initial state that every allowed action and environment step keeps holds along
every disciplined run. -/
theorem Reachable.invariant {I : σ → Prop} (hinit : I init)
    (hexec : ∀ t i c s r s', I s → ok.act t i c s → S.exec t i c s = some (r, s') → I s')
    (henv : ∀ e s s', I s → ok.env e s → S.env e s = some s' → I s')
    (h : S.Reachable ok init P) : I P.state := by
  induction h with
  | refl => exact hinit
  | @tail P P' _ hstep ih =>
    obtain ⟨l, hl, hnext⟩ := hstep
    cases l with
    | start t o =>
      obtain ⟨-, -, rfl⟩ := next_start hnext
      exact ih
    | act t c =>
      obtain ⟨i, k, r, s, hprog, hx, rfl⟩ := next_act hnext
      exact hexec t i c P.state r s ih (hl i k hprog) hx
    | finish t =>
      obtain ⟨a, -, rfl⟩ := next_finish hnext
      exact ih
    | env e =>
      obtain ⟨s, hx, rfl⟩ := map_eq_some_iff.mp hnext
      exact henv e P.state s ih hl hx

end Run

/-! ### Invariants, thread by thread -/

section RelyGuarantee

variable (S : ThreadSystem ι ρ τ σ χ ο ε) (ok : Discipline ι τ σ χ ο ε) (I : σ → Prop)
  (R : τ → σ → σ → Prop) (G : τ → ι → σ → Prop)

/-- What `t` did keeps the invariant and the rely of the others. -/
def Keeps (t : τ) (s s' : σ) : Prop := I s' ∧ ∀ u, u ≠ t → R u s s'

/-- What happened keeps the invariant and disturbs no thread, not even the one that did it. -/
def Spares (s s' : σ) : Prop := I s' ∧ ∀ u, R u s s'

/-- From `s` on, whatever the others do within the rely of `t`, the program performs its actions
only where `G` allows them, keeps the invariant and the rely of the others, and returns in a state
that satisfies `Q`. -/
def Safe {α : Type} (t : τ) : Prog ι ρ α → (α → σ → Prop) → σ → Prop
  | .done a, Q, s => Q a s
  | .act i k, Q, s => ∀ s₁ c r s₂, R t s s₁ → I s₁ → ok.act t i c s₁ →
      S.exec t i c s₁ = some (r, s₂) → G t i s₁ ∧ Keeps I R t s₁ s₂ ∧ Safe t (k r) Q s₂

variable {S ok I R G} {α β : Type} {t : τ}

variable {s s' : σ} {p : Prog ι ρ α}

lemma Spares.keeps (h : Spares I R s s') (t : τ) : Keeps I R t s s' :=
  ⟨h.1, fun u _ => h.2 u⟩

lemma Spares.refl [∀ t, IsPreorder σ (R t)] (h : I s) : Spares I R s s :=
  ⟨h, fun u => refl_of (R u) s⟩

lemma Safe.pure {a : α} {Q : α → σ → Prop} (h : Q a s) :
    S.Safe ok I R G t (Pure.pure a : Prog ι ρ α) Q s := h

lemma Safe.step {i : ι} {f : ρ i → Prog ι ρ β} {Q : β → σ → Prop}
    (h : ∀ s₁ c r s₂, R t s s₁ → I s₁ → ok.act t i c s₁ → S.exec t i c s₁ = some (r, s₂) →
      G t i s₁ ∧ Keeps I R t s₁ s₂ ∧ S.Safe ok I R G t (f r) Q s₂) :
    S.Safe ok I R G t (Prog.perform i >>= f) Q s := h

lemma Safe.perform {i : ι} {Q : ρ i → σ → Prop}
    (h : ∀ s₁ c r s₂, R t s s₁ → I s₁ → ok.act t i c s₁ → S.exec t i c s₁ = some (r, s₂) →
      G t i s₁ ∧ Keeps I R t s₁ s₂ ∧ Q r s₂) :
    S.Safe ok I R G t (Prog.perform i) Q s := h

lemma Safe.bind {f : α → Prog ι ρ β} {Q : β → σ → Prop}
    (h : S.Safe ok I R G t p (fun a s' => S.Safe ok I R G t (f a) Q s') s) :
    S.Safe ok I R G t (p >>= f) Q s := by
  induction p generalizing s with
  | done a => exact h
  | act i k ih =>
    intro s₁ c r s₂ hR hI hok hexec
    obtain ⟨hG, hkeep, hk⟩ := h s₁ c r s₂ hR hI hok hexec
    exact ⟨hG, hkeep, ih r hk⟩

lemma Safe.weaken {Q Q' : α → σ → Prop} (h : S.Safe ok I R G t p Q s)
    (hQ : ∀ a s, Q a s → Q' a s) : S.Safe ok I R G t p Q' s := by
  induction p generalizing s with
  | done a => exact hQ a s h
  | act i k ih =>
    intro s₁ c r s₂ hR hI hok hexec
    obtain ⟨hG, hkeep, hk⟩ := h s₁ c r s₂ hR hI hok hexec
    exact ⟨hG, hkeep, ih r hk⟩

lemma Safe.of_always {N : ι → Prop} {A : σ → Prop} (hA : ∀ s s', A s → R t s s' → A s')
    (hN : ∀ i, N i → ∀ s₁ c r s₂, A s₁ → I s₁ → ok.act t i c s₁ →
      S.exec t i c s₁ = some (r, s₂) → G t i s₁ ∧ Keeps I R t s₁ s₂ ∧ A s₂)
    (hp : p.Always N) (h : A s) :
    S.Safe ok I R G t p (fun _ => A) s := by
  induction p generalizing s with
  | done a => exact h
  | act i k ih =>
    intro s₁ c r s₂ hR hI hok hexec
    obtain ⟨hG, hkeep, hA₂⟩ := hN i hp.1 s₁ c r s₂ (hA s s₁ h hR) hI hok hexec
    exact ⟨hG, hkeep, ih r (hp.2 r) hA₂⟩

lemma Safe.rely [∀ t, IsPreorder σ (R t)] {E : σ → Prop} (hE : ∀ s s', R t s s' → E s → E s')
    {p : Prog ι ρ Unit} (h : S.Safe ok I R G t p (fun _ => E) s) (hR : R t s s') :
    S.Safe ok I R G t p (fun _ => E) s' := by
  cases p with
  | done a => exact hE s s' hR h
  | act i k => exact fun s₁ c r s₂ hR' => h s₁ c r s₂ (trans_of (R t) hR hR')

/-- What is known about a thread: an idle one satisfies `E`, a running one is safe and ends in
`E`. -/
def ThreadSafe (S : ThreadSystem ι ρ τ σ χ ο ε) (ok : Discipline ι τ σ χ ο ε) (I : σ → Prop)
    (R : τ → σ → σ → Prop) (G : τ → ι → σ → Prop) (E : τ → σ → Prop) (t : τ) (s : σ) :
    Option (Prog ι ρ Unit) → Prop
  | none => E t s
  | some p => S.Safe ok I R G t p (fun _ => E t) s

lemma ThreadSafe.rely [∀ t, IsPreorder σ (R t)] {E : τ → σ → Prop}
    {p : Option (Prog ι ρ Unit)} (hE : ∀ t s s', R t s s' → E t s → E t s')
    (h : ThreadSafe S ok I R G E t s p) (hR : R t s s') : ThreadSafe S ok I R G E t s' p:= by
  cases p with
  | none => exact hE t s s' hR h
  | some p => exact Safe.rely (hE t) h hR

/-- Suppose that idle threads satisfy `E`, that every operation is safe from every such state in
which it can start and ends in `E`, and that the environment keeps the invariant and every rely.
Then the invariant holds along every disciplined run, and every action is performed where `G` allows
it. -/
theorem Reachable.safe [DecidableEq τ] [∀ t, IsPreorder σ (R t)] {init : σ} {E : τ → σ → Prop}
    (hE : ∀ t s s', R t s s' → E t s → E t s') (hinit : I init ∧ ∀ t, E t init)
    (hstart : ∀ t o s, I s → E t s → ok.start t o s → S.starts t o s = true →
      S.Safe ok I R G t (S.program t o) (fun _ => E t) s)
    (henv : ∀ e s s', I s → ok.env e s → S.env e s = some s' →
      I s' ∧ ∀ t, if S.kills e t then E t s' else R t s s')
    {P : Pool ι ρ τ σ} (h : S.Reachable ok init P) :
    I P.state ∧ (∀ t, ThreadSafe S ok I R G E t P.state (P.prog t)) ∧
      S.Reachable (ok.performing G) init P := by
  induction h with
  | refl => exact ⟨hinit.1, fun t => hinit.2 t, Relation.ReflTransGen.refl⟩
  | @tail P P' _ hstep ih =>
    obtain ⟨hI, hsafe, hreach⟩ := ih
    obtain ⟨l, hl, hnext⟩ := hstep
    cases l with
    | start t o =>
      have hreach' := hreach.tail ⟨.start t o, hl, hnext⟩
      obtain ⟨hidle, hs, rfl⟩ := next_start hnext
      refine ⟨hI, fun u => ?_, hreach'⟩
      by_cases hu : u = t
      · subst hu
        have hEu : E u P.state := by simpa [ThreadSafe, hidle] using hsafe u
        simpa [ThreadSafe] using hstart u o P.state hI hEu hl hs
      · simpa [update_of_ne hu] using hsafe u
    | act t c =>
      obtain ⟨i, k, r, s₂, hprog, hexec, rfl⟩ := next_act hnext
      have ht := hsafe t
      rw [hprog] at ht
      obtain ⟨hG, hkeep, hk⟩ := ht P.state c r s₂ (refl_of (R t) _) hI (hl i k hprog) hexec
      refine ⟨hkeep.1, fun u => ?_, hreach.tail ⟨.act t c, fun j k' hj => ?_, hnext⟩⟩
      · by_cases hu : u = t
        · subst hu
          simpa [ThreadSafe] using hk
        · simpa [update_of_ne hu] using (hsafe u).rely hE (hkeep.2 u hu)
      · refine ⟨hl j k' hj, ?_⟩
        rw [hprog, some.injEq, Prog.act.injEq] at hj
        exact hj.1 ▸ hG
    | finish t =>
      have hreach' := hreach.tail ⟨.finish t, hl, hnext⟩
      obtain ⟨a, hprog, rfl⟩ := next_finish hnext
      refine ⟨hI, fun u => ?_, hreach'⟩
      by_cases hu : u = t
      · subst hu
        have hE : E u P.state := by
          have hu := hsafe u
          rw [hprog] at hu
          exact hu
        simpa [ThreadSafe] using hE
      · simpa [update_of_ne hu] using hsafe u
    | env e =>
      have hreach' := hreach.tail ⟨.env e, hl, hnext⟩
      obtain ⟨s', henv', rfl⟩ := map_eq_some_iff.mp hnext
      obtain ⟨hI', hR⟩ := henv e P.state s' hI hl henv'
      refine ⟨hI', fun u => ?_, hreach'⟩
      have hu := hR u
      by_cases hk : S.kills e u = true
      · rw [if_pos hk] at hu
        simpa [ThreadSafe, hk] using hu
      · rw [if_neg hk] at hu
        simpa [hk] using (hsafe u).rely hE hu

end RelyGuarantee

end ThreadSystem

end LlmdAsync
