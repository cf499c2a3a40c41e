import LlmdAsync.Foundation.Threads

/-!
# Threads beside a clock

A system of threads together with a clock that all of them can read.  Time passes between any two
steps and never goes back, and no step of the system depends on it: what a thread knows of the time
is what it has been told.  Conditions on the readings are conditions on the runs.
-/

namespace LlmdAsync

structure Timed (σ : Type) where
  state : σ
  clock : ℤ

/-- What the environment does beside a clock. -/
inductive Passing (ε : Type) where
  /-- It does what it can do without the clock. -/
  | step (e : ε)
  /-- Time passes. -/
  | tick (now : ℤ)

/-- A step of a system, beside a clock. -/
def Label.timed {τ χ ο ε : Type} : Label τ χ ο ε → Label τ χ ο (Passing ε)
  | .start t o => .start t o
  | .act t c => .act t c
  | .finish t => .finish t
  | .env e => .env (.step e)

namespace ThreadSystem

variable {ι : Type} {ρ : ι → Type} {τ σ χ ο ε : Type}

def timed (S : ThreadSystem ι ρ τ σ χ ο ε) :
    ThreadSystem ι ρ τ (Timed σ) χ ο (Passing ε) where
  exec t i c s := (S.exec t i c s.state).map fun rs => (rs.1, ⟨rs.2, s.clock⟩)
  program := S.program
  starts t o s := S.starts t o s.state
  env
    | .step e, s => (S.env e s.state).map fun s' => ⟨s', s.clock⟩
    | .tick now, s => if s.clock ≤ now then some ⟨s.state, now⟩ else none
  kills
    | .step e, t => S.kills e t
    | .tick _, _ => false

variable {S : ThreadSystem ι ρ τ σ χ ο ε}

lemma timed_exec {t : τ} {i : ι} {c : χ} {s s' : Timed σ} {r : ρ i}
    (h : S.timed.exec t i c s = some (r, s')) :
    S.exec t i c s.state = some (r, s'.state) ∧ s'.clock = s.clock := by
  obtain ⟨⟨r', s₁⟩, hexec, heq⟩ := Option.map_eq_some_iff.mp h
  cases heq
  exact ⟨hexec, rfl⟩

lemma timed_step {e : ε} {s s' : Timed σ} (h : S.timed.env (.step e) s = some s') :
    S.env e s.state = some s'.state ∧ s'.clock = s.clock := by
  obtain ⟨s₁, henv, rfl⟩ := Option.map_eq_some_iff.mp h
  exact ⟨henv, rfl⟩

lemma timed_tick {now : ℤ} {s s' : Timed σ} (h : S.timed.env (.tick now) s = some s') :
    s'.state = s.state ∧ s.clock ≤ s'.clock := by
  simp only [timed] at h
  split at h
  next hle =>
    cases h
    exact ⟨rfl, hle⟩
  · cases h

lemma timed_clock_le [DecidableEq τ] {P P' : Pool ι ρ τ (Timed σ)} {l : Label τ χ ο (Passing ε)}
    (h : S.timed.next P l = some P') : P.state.clock ≤ P'.state.clock := by
  cases l with
  | start t o =>
    obtain ⟨-, -, rfl⟩ := next_start h
    exact Int.le_refl _
  | act t c =>
    obtain ⟨i, k, r, s, -, hexec, rfl⟩ := next_act h
    exact Int.le_of_eq (timed_exec hexec).2.symm
  | finish t =>
    obtain ⟨a, -, rfl⟩ := next_finish h
    exact Int.le_refl _
  | env e =>
    obtain ⟨s, henv, rfl⟩ := Option.map_eq_some_iff.mp h
    cases e with
    | step e => exact Int.le_of_eq (timed_step henv).2.symm
    | tick now => exact (timed_tick henv).2

end ThreadSystem

end LlmdAsync
