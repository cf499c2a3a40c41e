import Mathlib

/-!
# Sharing items in turns

Agents share finitely many items.  They take turns, and each has the same quota: an agent that holds
more gives items up until the quota is met, and one that holds less takes items that nobody holds,
until the quota is met or no such item is left.

If the quotas suffice for all items, two rounds are enough, whatever the agents hold in the
beginning and in whatever order they act.  In the first round the agents above the quota come down
to it.  In the second nothing is given up any more, and somebody has room for every item.
-/

namespace LlmdAsync.Sharing

open List Finset

variable {ι α : Type*} [DecidableEq α] (items : Finset ι) (quota : ℕ)

/-- The number of items an agent holds. -/
def load (h : ι → Option α) (a : α) : ℕ := (items.filter fun i => h i = some a).card

/-- Some item is held by nobody. -/
def Spare (h : ι → Option α) : Prop := ∃ i ∈ items, h i = none

/-- A turn of an agent changes who holds what from `h` to `h'`. -/
structure Turn (a : α) (h h' : ι → Option α) : Prop where
  /-- What others hold stays with them. -/
  others : ∀ i ∈ items, ∀ b, b ≠ a → (h' i = some b ↔ h i = some b)
  /-- The agent does not exceed the quota. -/
  load_le : load items h' a ≤ quota
  /-- It gives nothing up unless it has to. -/
  keeps : load items h a ≤ quota → ∀ i ∈ items, h i = some a → h' i = some a
  /-- It meets the quota, unless no item is left. -/
  fills : load items h' a = quota ∨ ¬Spare items h'

/-- Turns of agents, one after the other. -/
inductive Turns : List α → (ι → Option α) → (ι → Option α) → Prop
  | nil (h : ι → Option α) : Turns [] h h
  | cons {a : α} {as : List α} {h h₁ h' : ι → Option α} (hturn : Turn items quota a h h₁)
      (hrest : Turns as h₁ h') : Turns (a :: as) h h'

variable {items quota} {a b : α} {as bs : List α} {h h' h'' : ι → Option α} {agents : Finset α}

/-- The agents are within the quota. -/
def Within (items : Finset ι) (quota : ℕ) (agents : Finset α) (h : ι → Option α) : Prop :=
  ∀ a ∈ agents, load items h a ≤ quota

namespace Turn

lemma load_eq (ht : Turn items quota a h h') (hb : b ≠ a) : load items h' b = load items h b := by
  unfold load
  congr 1
  exact filter_congr fun i hi => ht.others i hi b hb

lemma keeps_all (ht : Turn items quota a h h') (ha : load items h a ≤ quota) {i : ι}
    (hi : i ∈ items) (hb : h i = some b) : h' i = some b := by
  by_cases hba : b = a
  · subst hba
    exact ht.keeps ha i hi hb
  · exact (ht.others i hi b hba).mpr hb

lemma eq_of_not_spare (ht : Turn items quota a h h') (ha : load items h a ≤ quota)
    (hspare : ¬Spare items h) {i : ι} (hi : i ∈ items) : h' i = h i := by
  cases hb : h i with
  | none => exact absurd ⟨i, hi, hb⟩ hspare
  | some b => exact ht.keeps_all ha hi hb

lemma within (ht : Turn items quota a h h') (hw : Within items quota agents h) :
    Within items quota agents h' := by
  intro b hb
  by_cases hba : b = a
  · subst hba
    exact ht.load_le
  · rw [ht.load_eq hba]
    exact hw b hb

end Turn

namespace Turns

lemma load_eq (ht : Turns items quota as h h') (hb : b ∉ as) :
    load items h' b = load items h b := by
  induction ht with
  | nil => rfl
  | cons hturn _ ih =>
    rw [List.mem_cons, not_or] at hb
    rw [ih hb.2, hturn.load_eq hb.1]

lemma load_le (ht : Turns items quota as h h') (hb : b ∈ as) : load items h' b ≤ quota := by
  induction ht with
  | nil => cases hb
  | @cons a as h h₁ h' hturn hrest ih =>
    by_cases hlater : b ∈ as
    · exact ih hlater
    · rcases mem_cons.mp hb with rfl | hmem
      · rw [hrest.load_eq hlater]
        exact hturn.load_le
      · exact absurd hmem hlater

lemma keeps_all (ht : Turns items quota as h h') (has : ∀ a ∈ as, a ∈ agents)
    (hw : Within items quota agents h) {i : ι} (hi : i ∈ items) (hb : h i = some b) :
    h' i = some b := by
  induction ht with
  | nil => exact hb
  | @cons a as h h₁ h' hturn _ ih =>
    have ha : a ∈ agents := has a mem_cons_self
    exact ih (fun b hb => has b (mem_cons_of_mem _ hb)) (hturn.within hw)
      (hturn.keeps_all (hw a ha) hi hb)

lemma not_spare (ht : Turns items quota as h h') (has : ∀ a ∈ as, a ∈ agents)
    (hw : Within items quota agents h) (hspare : ¬Spare items h) : ¬Spare items h' := by
  rintro ⟨i, hi, hnone⟩
  cases hb : h i with
  | none => exact hspare ⟨i, hi, hb⟩
  | some b =>
    rw [ht.keeps_all has hw hi hb] at hnone
    cases hnone

lemma full (ht : Turns items quota as h h') (has : ∀ a ∈ as, a ∈ agents)
    (hw : Within items quota agents h) :
    ¬Spare items h' ∨ ∀ b ∈ as, load items h' b = quota := by
  induction ht with
  | nil => exact .inr nofun
  | @cons a as h h₁ h' hturn hrest ih =>
    have has' : ∀ b ∈ as, b ∈ agents := fun b hb => has b (mem_cons_of_mem _ hb)
    have hw₁ := hturn.within hw
    rcases hturn.fills with hmet | hnone
    · rcases ih has' hw₁ with hspare | hall
      · exact .inl hspare
      · refine .inr fun b hb => ?_
        by_cases hlater : b ∈ as
        · exact hall b hlater
        · rcases mem_cons.mp hb with rfl | hmem
          · rw [hrest.load_eq hlater, hmet]
          · exact absurd hmem hlater
    · exact .inl (hrest.not_spare has' hw₁ hnone)

end Turns

lemma mul_quota_le (hall : ∀ a ∈ agents, load items h a = quota) :
    agents.card * quota ≤ (items.filter fun i => h i ≠ none).card := by
  classical
  have hdisj : (agents : Set α).PairwiseDisjoint fun a => items.filter fun i => h i = some a := by
    intro a _ b _ hab
    refine disjoint_filter.mpr fun i _ ha hb => hab ?_
    exact Option.some.inj (ha.symm.trans hb)
  have hsum : (agents.biUnion fun a => items.filter fun i => h i = some a).card =
      agents.card * quota := by
    rw [card_biUnion hdisj]
    exact sum_const_nat hall
  rw [← hsum]
  refine card_le_card fun i hi => ?_
  obtain ⟨a, -, ha⟩ := mem_biUnion.mp hi
  obtain ⟨hmem, heq⟩ := mem_filter.mp ha
  refine mem_filter.mpr ⟨hmem, ?_⟩
  rw [heq]
  exact Option.some_ne_none a

/-- If the quotas suffice for all items, then after two rounds every agent is within its quota and
every item is held. -/
theorem Turns.two_rounds (h₁ : Turns items quota as h h') (h₂ : Turns items quota bs h' h'')
    (has : ∀ a, a ∈ as ↔ a ∈ agents) (hbs : ∀ a, a ∈ bs ↔ a ∈ agents)
    (henough : items.card ≤ agents.card * quota) :
    Within items quota agents h'' ∧ ¬Spare items h'' := by
  have hw' : Within items quota agents h' := fun a ha => h₁.load_le ((has a).mpr ha)
  have hw'' : Within items quota agents h'' := fun a ha => h₂.load_le ((hbs a).mpr ha)
  refine ⟨hw'', ?_⟩
  rcases h₂.full (fun a ha => (hbs a).mp ha) hw' with hspare | hall
  · exact hspare
  · rintro ⟨i, hi, hnone⟩
    have hheld := mul_quota_le fun a ha => hall a ((hbs a).mpr ha)
    have hlt : (items.filter fun i => h'' i ≠ none).card < items.card := by
      refine card_lt_card (filter_ssubset.mpr ⟨i, hi, ?_⟩)
      exact fun hne => hne hnone
    omega

end LlmdAsync.Sharing
