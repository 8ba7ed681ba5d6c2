import Mathlib.Data.Finset.Basic
import Mathlib.Logic.Function.Basic
import Mathlib.Logic.Relation
import Mathlib.Tactic.Common

/-!
# Runs that exclude each other by their keys

A guard admits a run if none of its keys is active, makes its keys active, and
releases them when the run leaves.  The active keys are then exactly those of the
admitted runs, and no two of these share a key.
-/

namespace StorageReconciler.ExclusiveRuns

variable {κ : Type*} [DecidableEq κ]

structure Guard (κ : Type*) where
  active : Finset κ
  admitted : ℕ → Option (Finset κ)

inductive Step : Guard κ → Guard κ → Prop where
  | enter {g : Guard κ} {r : ℕ} {keys : Finset κ} (unused : g.admitted r = none)
      (free : ∀ k ∈ keys, k ∉ g.active) :
      Step g ⟨g.active ∪ keys, Function.update g.admitted r (some keys)⟩
  | leave {g : Guard κ} {r : ℕ} {keys : Finset κ} (running : g.admitted r = some keys) :
      Step g ⟨g.active \ keys, Function.update g.admitted r none⟩

/-- The active keys are those of the admitted runs, which share none. -/
structure Exclusive (g : Guard κ) : Prop where
  active : ∀ k, k ∈ g.active ↔ ∃ r keys, g.admitted r = some keys ∧ k ∈ keys
  apart : ∀ r r' keys keys' k, g.admitted r = some keys → g.admitted r' = some keys' →
    k ∈ keys → k ∈ keys' → r = r'

section Exclusive

variable {g g' : Guard κ}

theorem Exclusive.enter (h : Exclusive g) {r : ℕ} {keys : Finset κ}
    (unused : g.admitted r = none) (free : ∀ k ∈ keys, k ∉ g.active) :
    Exclusive ⟨g.active ∪ keys, Function.update g.admitted r (some keys)⟩ := by
  have hadmitted : ∀ r' keys', Function.update g.admitted r (some keys) r' = some keys' ↔
      r' = r ∧ keys' = keys ∨ g.admitted r' = some keys' := by
    intro r' keys'
    rw [Function.update_apply]
    split_ifs with hr
    · subst hr
      simp [unused, eq_comm]
    · simp [hr]
  constructor
  · intro k
    simp only [Finset.mem_union, h.active, hadmitted]
    constructor
    · rintro (⟨r', keys', hr', hk⟩ | hk)
      · exact ⟨r', keys', .inr hr', hk⟩
      · exact ⟨r, keys, .inl ⟨rfl, rfl⟩, hk⟩
    · rintro ⟨r', keys', ⟨rfl, rfl⟩ | hr', hk⟩
      · exact .inr hk
      · exact .inl ⟨r', keys', hr', hk⟩
  · intro r₁ r₂ keys₁ keys₂ k h₁ h₂ hk₁ hk₂
    -- a key of the new run is active in no other
    have hnew : ∀ r' keys', g.admitted r' = some keys' → k ∈ keys' → k ∉ keys := by
      intro r' keys' hr' hk' hk
      exact free k hk ((h.active k).mpr ⟨r', keys', hr', hk'⟩)
    rcases (hadmitted r₁ keys₁).mp h₁ with ⟨hr₁, hkeys₁⟩ | hold₁
    · rcases (hadmitted r₂ keys₂).mp h₂ with ⟨hr₂, _⟩ | hold₂
      · exact hr₁.trans hr₂.symm
      · exact absurd (hkeys₁ ▸ hk₁) (hnew r₂ keys₂ hold₂ hk₂)
    · rcases (hadmitted r₂ keys₂).mp h₂ with ⟨_, hkeys₂⟩ | hold₂
      · exact absurd (hkeys₂ ▸ hk₂) (hnew r₁ keys₁ hold₁ hk₁)
      · exact h.apart r₁ r₂ keys₁ keys₂ k hold₁ hold₂ hk₁ hk₂

theorem Exclusive.leave (h : Exclusive g) {r : ℕ} {keys : Finset κ}
    (running : g.admitted r = some keys) :
    Exclusive ⟨g.active \ keys, Function.update g.admitted r none⟩ := by
  have hadmitted : ∀ r' keys', Function.update g.admitted r none r' = some keys' ↔
      r' ≠ r ∧ g.admitted r' = some keys' := by
    intro r' keys'
    rw [Function.update_apply]
    split_ifs with hr <;> simp [hr]
  constructor
  · intro k
    simp only [Finset.mem_sdiff, h.active, hadmitted]
    constructor
    · rintro ⟨⟨r', keys', hr', hk'⟩, hk⟩
      refine ⟨r', keys', ⟨?_, hr'⟩, hk'⟩
      rintro rfl
      obtain rfl := Option.some.inj (hr'.symm.trans running)
      exact hk hk'
    · rintro ⟨r', keys', ⟨hne, hr'⟩, hk'⟩
      exact ⟨⟨r', keys', hr', hk'⟩, fun hk ↦ hne (h.apart r' r keys' keys k hr' running hk' hk)⟩
  · intro r₁ r₂ keys₁ keys₂ k h₁ h₂ hk₁ hk₂
    exact h.apart r₁ r₂ keys₁ keys₂ k ((hadmitted _ _).mp h₁).2 ((hadmitted _ _).mp h₂).2 hk₁ hk₂

theorem Exclusive.step (h : Exclusive g) (hstep : Step g g') : Exclusive g' := by
  cases hstep with
  | enter unused free => exact h.enter unused free
  | leave running => exact h.leave running

omit [DecidableEq κ] in
theorem exclusive_start : Exclusive (⟨∅, fun _ ↦ none⟩ : Guard κ) :=
  ⟨by simp, fun _ _ _ _ _ h ↦ nomatch h⟩

end Exclusive

end StorageReconciler.ExclusiveRuns
