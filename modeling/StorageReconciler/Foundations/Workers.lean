import Mathlib.Logic.Function.Basic
import Mathlib.Logic.Relation
import Mathlib.Tactic.Common

/-!
# Workers over a shared state

Numbered workers take steps of their own in any order.  Each has a status, and
all of them share one state.

An assertion about each worker that its own steps keep, and that the steps of
the others leave alone, holds throughout every run.  Two teams do the same where
each worker of the one can follow the steps of its counterpart.
-/

namespace StorageReconciler.Workers

variable {σ τ σ' τ' : Type*}

structure Team (σ τ : Type*) where
  shared : σ
  status : ℕ → τ

/-- The steps of a worker, from a shared state and a status to the next ones. -/
abbrev Action (σ τ : Type*) := ℕ → σ → τ → σ → τ → Prop

/-- One worker takes one step. -/
inductive Step (act : Action σ τ) : Team σ τ → Team σ τ → Prop where
  | worker {p : Team σ τ} {i : ℕ} {s : σ} {t : τ} (h : act i p.shared (p.status i) s t) :
      Step act p ⟨s, Function.update p.status i t⟩

theorem Step.of_status {act : Action σ τ} {p : Team σ τ} {i : ℕ} {s : σ} {t t' : τ}
    (hstatus : p.status i = t) (h : act i p.shared t s t') :
    Step act p ⟨s, Function.update p.status i t'⟩ := by
  subst hstatus
  exact .worker h

theorem update_eq_cases {f : ℕ → τ} {i j : ℕ} {t u : τ} (h : Function.update f i t j = u) :
    j = i ∧ t = u ∨ j ≠ i ∧ f j = u := by
  by_cases hji : j = i
  · subst hji
    exact .inl ⟨rfl, (Function.update_self j t f).symm.trans h⟩
  · exact .inr ⟨hji, (Function.update_of_ne hji t f).symm.trans h⟩

/-- `G` and the assertions `A` are kept by every step, the own one of a worker or
one of another. -/
structure Stable (act : Action σ τ) (G : σ → Prop) (A : ℕ → σ → τ → Prop) : Prop where
  shared : ∀ {i s t s' t'}, act i s t s' t' → G s → A i s t → G s'
  own : ∀ {i s t s' t'}, act i s t s' t' → G s → A i s t → A i s' t'
  other : ∀ {i j s t u s' u'}, act j s u s' u' → i ≠ j → G s → A j s u → A i s t → A i s' t

def Holds (G : σ → Prop) (A : ℕ → σ → τ → Prop) (p : Team σ τ) : Prop :=
  G p.shared ∧ ∀ i, A i p.shared (p.status i)

section Stable

variable {act : Action σ τ} {G : σ → Prop} {A : ℕ → σ → τ → Prop} {p p' : Team σ τ}

theorem Stable.step (h : Stable act G A) (hp : Holds G A p) (hstep : Step act p p') :
    Holds G A p' := by
  obtain ⟨hG, hA⟩ := hp
  cases hstep with
  | @worker i s t hact =>
      refine ⟨h.shared hact hG (hA i), fun j ↦ ?_⟩
      change A j s (Function.update p.status i t j)
      by_cases hj : j = i
      · subst hj
        rw [Function.update_self]
        exact h.own hact hG (hA j)
      · rw [Function.update_of_ne hj]
        exact h.other hact hj hG (hA i) (hA j)

theorem Stable.reachable (h : Stable act G A) (hp : Holds G A p)
    (hrun : Relation.ReflTransGen (Step act) p p') : Holds G A p' := by
  induction hrun with
  | refl => exact hp
  | tail _ hstep ih => exact h.step ih hstep

end Stable

/-! ## Workers that go on alone -/

/-- A step of one worker, the others aside. -/
def Alone (act : Action σ τ) (i : ℕ) (p q : σ × τ) : Prop := act i p.1 p.2 q.1 q.2

/-- A worker may take several steps in a row. -/
theorem reaches_alone {act : Action σ τ} {i : ℕ} {p : Team σ τ} {s : σ} {t : τ}
    (h : Relation.ReflTransGen (Alone act i) (p.shared, p.status i) (s, t)) :
    Relation.ReflTransGen (Step act) p ⟨s, Function.update p.status i t⟩ := by
  let team (q : σ × τ) : Team σ τ := ⟨q.1, Function.update p.status i q.2⟩
  have hlift : Relation.ReflTransGen (Step act) (team (p.shared, p.status i)) (team (s, t)) := by
    apply h.lift team
    intro q q' hstep
    have hone := Step.of_status (p := team q) (Function.update_self i q.2 p.status) hstep
    rwa [Function.update_idem] at hone
  have hstart : team (p.shared, p.status i) = p := by
    simp only [team, Function.update_eq_self]
  rwa [hstart] at hlift

/-! ## Teams that follow another -/

/-- Each step of a worker is followed by its counterpart with some steps or none, what
relates the two being kept, also by the steps of the others. -/
structure Simulation (act : Action σ τ) (act' : Action σ' τ') (G : σ → σ' → Prop)
    (A : ℕ → σ → τ → τ' → Prop) : Prop where
  own : ∀ {i s t s₁ t₁ s' t'}, act i s t s₁ t₁ → G s s' → A i s t t' →
    ∃ s₁' t₁', Relation.ReflTransGen (Alone act' i) (s', t') (s₁', t₁') ∧ G s₁ s₁' ∧
      A i s₁ t₁ t₁'
  other : ∀ {i j s t t' u s₁ u₁}, act j s u s₁ u₁ → i ≠ j → A i s t t' → A i s₁ t t'

/-- The shared states are related, and so are the statuses of each worker. -/
def Related (G : σ → σ' → Prop) (A : ℕ → σ → τ → τ' → Prop) (p : Team σ τ) (q : Team σ' τ') :
    Prop :=
  G p.shared q.shared ∧ ∀ i, A i p.shared (p.status i) (q.status i)

section Simulation

variable {act : Action σ τ} {act' : Action σ' τ'} {G : σ → σ' → Prop}
  {A : ℕ → σ → τ → τ' → Prop} {p p' : Team σ τ} {q : Team σ' τ'}

theorem Simulation.step (h : Simulation act act' G A) (hrelated : Related G A p q)
    (hstep : Step act p p') :
    ∃ q', Relation.ReflTransGen (Step act') q q' ∧ Related G A p' q' := by
  obtain ⟨hG, hA⟩ := hrelated
  cases hstep with
  | @worker i s t hact =>
      obtain ⟨s', t', hrun, hG', hA'⟩ := h.own hact hG (hA i)
      refine ⟨_, reaches_alone hrun, hG', fun j ↦ ?_⟩
      change A j s (Function.update p.status i t j) (Function.update q.status i t' j)
      by_cases hj : j = i
      · subst hj
        rwa [Function.update_self, Function.update_self]
      · rw [Function.update_of_ne hj, Function.update_of_ne hj]
        exact h.other hact hj (hA j)

theorem Simulation.reachable (h : Simulation act act' G A) (hrelated : Related G A p q)
    (hrun : Relation.ReflTransGen (Step act) p p') :
    ∃ q', Relation.ReflTransGen (Step act') q q' ∧ Related G A p' q' := by
  induction hrun with
  | refl => exact ⟨q, .refl, hrelated⟩
  | tail _ hstep ih =>
      obtain ⟨q₁, hreach₁, hrelated₁⟩ := ih
      obtain ⟨q₂, hreach₂, hrelated₂⟩ := h.step hrelated₁ hstep
      exact ⟨q₂, hreach₁.trans hreach₂, hrelated₂⟩

end Simulation

end StorageReconciler.Workers
