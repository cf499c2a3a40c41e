import Mathlib

/-!
# Custody

A record of who has what: things at places, where the same thing can be at a place several times.
The places are for example threads and channels, and the things are what they answer for.  An
exchange removes things from one place and adds others there.  What is said of a record is what it
weighs by some measure, and an exchange changes that by the weight of what was removed and added.
-/

namespace LlmdAsync

open Multiset

/-- Things of type `θ` at places of type `π`. -/
abbrev Custody (π θ : Type) := Multiset (π × θ)

namespace Custody

variable {π θ : Type} [DecidableEq π] [DecidableEq θ]

/-- The things at a place. -/
def held (c : Custody π θ) (p : π) : Multiset θ := (c.filter fun e => e.1 = p).map Prod.snd

/-- These things at one place. -/
def put (p : π) (m : Multiset θ) : Custody π θ := m.map (Prod.mk p)

/-- At one place, remove some things and add others. -/
def exchange (c : Custody π θ) (p : π) (takes gives : Multiset θ) : Custody π θ :=
  c - put p takes + put p gives

variable {c : Custody π θ} {p q : π} {m takes gives : Multiset θ}

omit [DecidableEq θ] in
lemma mem_held {x : θ} : x ∈ c.held p ↔ (p, x) ∈ c := by
  simp [held]

omit [DecidableEq π] [DecidableEq θ] in
@[simp] lemma mem_put {e : π × θ} : e ∈ put p m ↔ e.1 = p ∧ e.2 ∈ m := by
  obtain ⟨q, x⟩ := e
  simp only [put, mem_map, Prod.mk.injEq]
  constructor
  · rintro ⟨y, hy, rfl, rfl⟩
    exact ⟨rfl, hy⟩
  · rintro ⟨rfl, hx⟩
    exact ⟨x, hx, rfl, rfl⟩

omit [DecidableEq θ] in
@[simp] lemma held_put_self (p : π) (m : Multiset θ) : (put p m).held p = m := by
  rw [held, filter_eq_self.mpr fun e he => (mem_put.mp he).1, put, map_map]
  exact map_id m

omit [DecidableEq θ] in
lemma held_put_of_ne (h : q ≠ p) : (put p m).held q = 0 := by
  rw [held, filter_eq_nil.mpr fun e he heq => h (heq.symm.trans (mem_put.mp he).1), map_zero]

omit [DecidableEq θ] in
lemma put_held_le (c : Custody π θ) (p : π) : put p (c.held p) ≤ c := by
  have hput : put p (c.held p) = c.filter fun e => e.1 = p := by
    rw [put, held, map_map]
    refine (map_congr rfl fun e he => ?_).trans (map_id _)
    rw [← (mem_filter.mp he).2]
    rfl
  rw [hput]
  exact filter_le _ _

omit [DecidableEq θ] in
lemma put_le (h : m ≤ c.held p) : put p m ≤ c :=
  (map_le_map h).trans (put_held_le c p)

omit [DecidableEq θ] in
lemma held_add (c c' : Custody π θ) (p : π) : (c + c').held p = c.held p + c'.held p := by
  rw [held, filter_add, map_add]
  rfl

lemma held_exchange_self (h : takes ≤ c.held p) :
    (c.exchange p takes gives).held p = c.held p - takes + gives := by
  have hsplit : c.held p = (c - put p takes).held p + takes := by
    conv_lhs => rw [← Multiset.sub_add_cancel (put_le h), held_add, held_put_self]
  rw [exchange, held_add, held_put_self, hsplit, Multiset.add_sub_cancel_right]

lemma held_exchange_of_ne (hne : q ≠ p) : (c.exchange p takes gives).held q = c.held q := by
  have hzero : (put p takes).filter (fun e => e.1 = q) = 0 :=
    filter_eq_nil.mpr fun e he heq => hne (heq.symm.trans (mem_put.mp he).1)
  rw [exchange, held_add, held_put_of_ne hne, add_zero, held, Multiset.filter_sub, hzero,
    Multiset.sub_zero]
  rfl

/-! ### Weights -/

/-- What things weigh together. -/
def load (f : θ → ℕ) (m : Multiset θ) : ℕ := (m.map f).sum

/-- What everything in the record weighs. -/
def weigh (c : Custody π θ) (f : θ → ℕ) : ℕ := load (fun e => f e.2) c

section Weights

variable {f g : θ → ℕ}

omit [DecidableEq θ] in
@[simp] lemma load_zero (f : θ → ℕ) : load f 0 = 0 := rfl

omit [DecidableEq θ] in
@[simp] lemma load_cons (f : θ → ℕ) (x : θ) (m : Multiset θ) :
    load f (x ::ₘ m) = f x + load f m := by
  simp [load]

omit [DecidableEq θ] in
@[simp] lemma load_singleton (f : θ → ℕ) (x : θ) : load f {x} = f x := by
  simp [load]

omit [DecidableEq θ] in
@[simp] lemma load_add (f : θ → ℕ) (m m' : Multiset θ) :
    load f (m + m') = load f m + load f m' := by
  simp [load]

omit [DecidableEq θ] in
@[simp] lemma load_coe (f : θ → ℕ) (l : List θ) : load f (l : Multiset θ) = (l.map f).sum := by
  simp [load]

omit [DecidableEq θ] in
lemma load_le {m m' : Multiset θ} (f : θ → ℕ) (h : m ≤ m') : load f m ≤ load f m' := by
  obtain ⟨m'', rfl⟩ := Multiset.le_iff_exists_add.mp h
  rw [load_add]
  exact Nat.le_add_right _ _

omit [DecidableEq θ] in
lemma load_eq_zero {m : Multiset θ} : load f m = 0 ↔ ∀ x ∈ m, f x = 0 := by
  simp [load, sum_eq_zero_iff]

omit [DecidableEq π] [DecidableEq θ] in
@[simp] lemma weigh_put (p : π) (m : Multiset θ) (f : θ → ℕ) : (put p m).weigh f = load f m := by
  simp [weigh, load, put]

omit [DecidableEq π] [DecidableEq θ] in
@[simp] lemma weigh_add (c c' : Custody π θ) (f : θ → ℕ) :
    (c + c').weigh f = c.weigh f + c'.weigh f :=
  load_add _ c c'

omit [DecidableEq π] [DecidableEq θ] in
lemma weigh_split {f₁ f₂ : θ → ℕ} (h : ∀ x, f x = f₁ x + f₂ x) (c : Custody π θ) :
    c.weigh f = c.weigh f₁ + c.weigh f₂ := by
  simp [weigh, load, h]

omit [DecidableEq π] [DecidableEq θ] in
lemma weigh_mono (h : ∀ x, f x ≤ g x) (c : Custody π θ) : c.weigh f ≤ c.weigh g :=
  sum_map_le_sum_map _ _ fun e _ => h e.2

omit [DecidableEq π] [DecidableEq θ] in
lemma weigh_eq_zero : c.weigh f = 0 ↔ ∀ e ∈ c, f e.2 = 0 := load_eq_zero

omit [DecidableEq π] [DecidableEq θ] in
lemma weigh_eq_zero_of_imp (hfg : ∀ x, f x = 0 → g x = 0) (h : c.weigh f = 0) : c.weigh g = 0 :=
  weigh_eq_zero.mpr fun e he => hfg e.2 (weigh_eq_zero.mp h e he)

lemma weigh_sub (h : m ≤ c.held p) (f : θ → ℕ) : (c - put p m).weigh f + load f m = c.weigh f := by
  rw [← weigh_put p m f, ← weigh_add, Multiset.sub_add_cancel (put_le h)]

lemma weigh_exchange (h : takes ≤ c.held p) (gives : Multiset θ) (f : θ → ℕ) :
    (c.exchange p takes gives).weigh f + load f takes = c.weigh f + load f gives := by
  rw [exchange, weigh_add, weigh_put, ← weigh_sub h f]
  omega

omit [DecidableEq θ] in
lemma load_le_weigh (h : m ≤ c.held p) (f : θ → ℕ) : load f m ≤ c.weigh f := by
  rw [← weigh_put p m f]
  exact load_le _ (put_le h)

end Weights

lemma mem_exchange {e : π × θ} (h : e ∈ c.exchange p takes gives) :
    e ∈ c ∨ (e.1 = p ∧ e.2 ∈ gives) := by
  rcases Multiset.mem_add.mp h with h | h
  · exact .inl (Multiset.mem_of_le (Multiset.sub_le_self _ _) h)
  · exact .inr (mem_put.mp h)

end Custody

end LlmdAsync
