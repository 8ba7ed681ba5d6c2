import StorageReconciler.Foundations.ExclusiveRuns
import StorageReconciler.Foundations.Strings
import StorageReconciler.Foundations.Workers

/-!
# Archive runs one at a time

A call of a guarded function compares its items with the active ones and adds
them, and takes them out again however the function ends.  Both happen under a
lock, which the comparison holds until the items are added.
-/

namespace StorageReconciler

open Strings Workers

/-- The lock, with the call that holds it, and the active items. -/
structure GuardState where
  holder : Option ℕ
  active : Finset (Str × Str)

/-- How far a call is.  The lock is held from `checking` to `entered` and from `leaving`
to `left`, and while the rejection is raised. -/
inductive GuardedCall (α : Type*) where
  | outside
  | checking
  | rejecting
  | passed
  | entered
  | running
  | ended (outcome : Except Str α)
  | leaving (outcome : Except Str α)
  | left (outcome : Except Str α)
  | rejected
  | done (outcome : Except Str α)

namespace GuardedCall

variable {α : Type*}

def holdsLock : GuardedCall α → Bool
  | checking => true
  | rejecting => true
  | passed => true
  | entered => true
  | leaving _ => true
  | left _ => true
  | _ => false

/-- The call was admitted, and its items are not taken out yet. -/
def isActive : GuardedCall α → Bool
  | entered => true
  | running => true
  | ended _ => true
  | leaving _ => true
  | _ => false

/-- The call was not made, or has ended. -/
def isOver : GuardedCall α → Bool
  | outside => true
  | rejected => true
  | done _ => true
  | _ => false

def outcome : GuardedCall α → Option (Except Str α)
  | rejected => some (.error ("An archive run is still active. " ++
      "Wait for it to finish before continuing.").toList)
  | done outcome => some outcome
  | _ => none

theorem isOver_eq_false {t : GuardedCall α} (h : t.isActive = true ∨ t.holdsLock = true) :
    t.isOver = false := by
  cases t with
  | outside => simp [isActive, holdsLock] at h
  | rejected => simp [isActive, holdsLock] at h
  | done outcome => simp [isActive, holdsLock] at h
  | _ => rfl

end GuardedCall

section Steps

variable {α : Type*}

/-- The steps of `guarded`, for the call of a number. -/
inductive GuardedStep (keys : Finset (Str × Str)) (i : ℕ) :
    GuardState → GuardedCall α → GuardState → GuardedCall α → Prop where
  | acquire {s : GuardState} (free : s.holder = none) :
      GuardedStep keys i s .outside { s with holder := some i } .checking
  | check {s : GuardState} :
      GuardedStep keys i s .checking s (if Disjoint keys s.active then .passed else .rejecting)
  | reject {s : GuardState} : GuardedStep keys i s .rejecting { s with holder := none } .rejected
  | update {s : GuardState} :
      GuardedStep keys i s .passed { s with active := s.active ∪ keys } .entered
  | release {s : GuardState} : GuardedStep keys i s .entered { s with holder := none } .running
  | ends {s : GuardState} (outcome : Except Str α) :
      GuardedStep keys i s .running s (.ended outcome)
  | acquireAgain {s : GuardState} {outcome : Except Str α} (free : s.holder = none) :
      GuardedStep keys i s (.ended outcome) { s with holder := some i } (.leaving outcome)
  | remove {s : GuardState} {outcome : Except Str α} :
      GuardedStep keys i s (.leaving outcome) { s with active := s.active \ keys } (.left outcome)
  | releaseAgain {s : GuardState} {outcome : Except Str α} :
      GuardedStep keys i s (.left outcome) { s with holder := none } (.done outcome)

/-- The calls, each with its list of items. -/
def guardedAction (calls : ℕ → List (Str × Str)) : Action GuardState (GuardedCall α) :=
  fun i ↦ GuardedStep (calls i).toFinset i

def GuardedStart : Team GuardState (GuardedCall α) := ⟨⟨none, ∅⟩, fun _ ↦ .outside⟩

end Steps

/-! ## The lock -/

section Lock

variable {α : Type*} {calls : ℕ → List (Str × Str)} {p p' : Team GuardState (GuardedCall α)}

/-- A call holds the lock where its code says so, and what it has compared stays true
for as long. -/
def LockAssertion (calls : ℕ → List (Str × Str)) (i : ℕ) (s : GuardState)
    (t : GuardedCall α) : Prop :=
  (t.holdsLock = true ↔ s.holder = some i) ∧
    (t = .passed → Disjoint (calls i).toFinset s.active)

theorem GuardedStep.active_eq {keys : Finset (Str × Str)} {i : ℕ} {s s' : GuardState}
    {t t' : GuardedCall α} (h : GuardedStep keys i s t s' t') (hfree : t.holdsLock = false) :
    s'.active = s.active := by
  cases h with
  | update => cases hfree
  | remove => cases hfree
  | _ => rfl

theorem GuardedStep.holder_cases {keys : Finset (Str × Str)} {i : ℕ} {s s' : GuardState}
    {t t' : GuardedCall α} (h : GuardedStep keys i s t s' t') :
    s.holder = none ∧ s'.holder = some i ∧ t'.holdsLock = true ∨
      t.holdsLock = true ∧ s'.holder = none ∧ t'.holdsLock = false ∨
      s'.holder = s.holder ∧ t'.holdsLock = t.holdsLock := by
  cases h with
  | acquire free => exact .inl ⟨free, rfl, rfl⟩
  | acquireAgain free => exact .inl ⟨free, rfl, rfl⟩
  | reject => exact .inr (.inl ⟨rfl, rfl, rfl⟩)
  | release => exact .inr (.inl ⟨rfl, rfl, rfl⟩)
  | releaseAgain => exact .inr (.inl ⟨rfl, rfl, rfl⟩)
  | check =>
      refine .inr (.inr ⟨rfl, ?_⟩)
      split_ifs <;> rfl
  | update => exact .inr (.inr ⟨rfl, rfl⟩)
  | ends => exact .inr (.inr ⟨rfl, rfl⟩)
  | remove => exact .inr (.inr ⟨rfl, rfl⟩)

theorem GuardedStep.disjoint_of_passed {keys : Finset (Str × Str)} {i : ℕ} {s s' : GuardState}
    {t : GuardedCall α} (h : GuardedStep keys i s t s' .passed) : Disjoint keys s'.active := by
  generalize hpassed : GuardedCall.passed = t' at h
  cases h with
  | check =>
      split_ifs at hpassed with hdisjoint
      exact hdisjoint
  | _ => cases hpassed

theorem lockStable (calls : ℕ → List (Str × Str)) :
    Stable (guardedAction (α := α) calls) (fun _ ↦ True) (LockAssertion calls) := by
  refine ⟨fun _ _ _ ↦ trivial, ?_, ?_⟩
  · intro i s t s' t' hact _ hassert
    refine ⟨?_, ?_⟩
    · rcases hact.holder_cases with ⟨_, hholder, ht⟩ | ⟨_, hholder, ht⟩ | ⟨hholder, ht⟩
      · exact iff_of_true ht hholder
      · simp [hholder, ht]
      · rw [hholder, ht]
        exact hassert.1
    · rintro rfl
      exact hact.disjoint_of_passed
  · intro i j s t u s' u' hact hne _ hother hassert
    have hapart : u.holdsLock = true → t.holdsLock = false := by
      intro hu
      rw [Bool.eq_false_iff]
      intro ht
      have hsame := (hassert.1.mp ht).symm.trans (hother.1.mp hu)
      exact hne (Option.some.inj hsame)
    refine ⟨?_, ?_⟩
    · rcases hact.holder_cases with ⟨hfree, hholder, _⟩ | ⟨hu, hholder, _⟩ | ⟨hholder, _⟩
      · rw [hassert.1, hfree, hholder]
        simp [hne.symm]
      · rw [hapart hu, hholder]
        simp
      · rw [hholder]
        exact hassert.1
    · rintro rfl
      have hu : u.holdsLock = false := by
        by_contra hu
        cases hapart (Bool.not_eq_false _ ▸ hu)
      rw [hact.active_eq hu]
      exact hassert.2 rfl

theorem lockAssertion_of_reachable
    (hrun : Relation.ReflTransGen (Step (guardedAction calls)) GuardedStart p) (i : ℕ) :
    LockAssertion calls i p.shared (p.status i) := by
  have hstart : Workers.Holds (fun _ ↦ True) (LockAssertion calls)
      (GuardedStart : Team GuardState (GuardedCall α)) :=
    ⟨trivial, fun _ ↦ ⟨by simp [GuardedStart, GuardedCall.holdsLock], fun h ↦ by cases h⟩⟩
  exact ((lockStable calls).reachable hstart hrun).2 i

end Lock

/-! ## The active items -/

section Active

variable {α : Type*} {calls : ℕ → List (Str × Str)} {p p' : Team GuardState (GuardedCall α)}

/-- The calls that are admitted and not over, as the guard of runs sees them. -/
def guardOf (calls : ℕ → List (Str × Str)) (p : Team GuardState (GuardedCall α)) :
    ExclusiveRuns.Guard (Str × Str) where
  active := p.shared.active
  admitted i := if (p.status i).isActive then some (calls i).toFinset else none

theorem guardOf_update {i : ℕ} {t : GuardedCall α} (s : GuardState) :
    guardOf calls ⟨s, Function.update p.status i t⟩ =
      ⟨s.active, Function.update (guardOf calls p).admitted i
        (if t.isActive then some (calls i).toFinset else none)⟩ := by
  unfold guardOf
  congr 1
  funext j
  by_cases hj : j = i
  · subst hj
    simp
  · simp [hj]

/-- A call enters where its items are added and leaves where they are removed, and all
other steps are hidden from the guard. -/
theorem guardOf_step {i : ℕ} {s : GuardState} {t : GuardedCall α}
    (hassert : LockAssertion calls i p.shared (p.status i))
    (h : guardedAction calls i p.shared (p.status i) s t) :
    guardOf calls ⟨s, Function.update p.status i t⟩ = guardOf calls p ∨
      ExclusiveRuns.Step (guardOf calls p)
        (guardOf calls ⟨s, Function.update p.status i t⟩) := by
  rw [guardOf_update]
  have hadmitted : (guardOf calls p).admitted i =
      if (p.status i).isActive then some (calls i).toFinset else none := rfl
  generalize hstatus : p.status i = t₀ at h hassert hadmitted
  have hhidden : ∀ active, active = (guardOf calls p).active → t.isActive = t₀.isActive →
      (⟨active, Function.update (guardOf calls p).admitted i
        (if t.isActive then some (calls i).toFinset else none)⟩ :
          ExclusiveRuns.Guard (Str × Str)) = guardOf calls p := by
    rintro active rfl hsame
    rw [hsame, ← hadmitted, Function.update_eq_self]
  cases h with
  | update =>
      right
      apply ExclusiveRuns.Step.enter hadmitted
      intro k hk
      exact Finset.disjoint_left.mp (hassert.2 rfl) hk
  | remove => exact .inr (.leave hadmitted)
  | check =>
      left
      apply hhidden _ rfl
      split_ifs <;> rfl
  | _ => exact .inl (hhidden _ rfl rfl)

theorem exclusive_of_reachable
    (hrun : Relation.ReflTransGen (Step (guardedAction calls)) GuardedStart p) :
    ExclusiveRuns.Exclusive (guardOf calls p) := by
  induction hrun with
  | refl => exact ExclusiveRuns.exclusive_start
  | tail hrun hstep ih =>
      cases hstep with
      | @worker i s t hact =>
          rcases guardOf_step (lockAssertion_of_reachable hrun i) hact with hsame | hguard
          · rw [hsame]
            exact ih
          · exact ih.step hguard

theorem guardOf_admitted {i : ℕ} {keys : Finset (Str × Str)} :
    (guardOf calls p).admitted i = some keys ↔
      (p.status i).isActive = true ∧ (calls i).toFinset = keys := by
  have hdef : (guardOf calls p).admitted i =
      if (p.status i).isActive then some (calls i).toFinset else none := rfl
  rw [hdef]
  split_ifs with hactive <;> simp [hactive]

theorem mem_active_iff
    (hrun : Relation.ReflTransGen (Step (guardedAction calls)) GuardedStart p)
    (item : Str × Str) :
    item ∈ p.shared.active ↔ ∃ i, (p.status i).isActive = true ∧ item ∈ calls i := by
  apply ((exclusive_of_reachable hrun).active item).trans
  simp [guardOf_admitted]

/-- When all calls are over, the set is empty and the lock is free. -/
theorem released_of_isOver
    (hrun : Relation.ReflTransGen (Step (guardedAction calls)) GuardedStart p)
    (hover : ∀ i, (p.status i).isOver = true) :
    p.shared.active = ∅ ∧ p.shared.holder = none := by
  refine ⟨?_, ?_⟩
  · rw [Finset.eq_empty_iff_forall_notMem]
    intro item hitem
    obtain ⟨i, hactive, _⟩ := (mem_active_iff hrun item).mp hitem
    have hdone := hover i
    rw [GuardedCall.isOver_eq_false (.inl hactive)] at hdone
    cases hdone
  · by_contra hheld
    obtain ⟨i, hi⟩ := Option.ne_none_iff_exists'.mp hheld
    have hlock := (lockAssertion_of_reachable hrun i).1.mpr hi
    have hdone := hover i
    rw [GuardedCall.isOver_eq_false (.inr hlock)] at hdone
    cases hdone

/-- The active items are those of the admitted calls, which share none; a call is
rejected where it meets them, and to no effect; and nothing stays behind. -/
structure ExcludesOverlap (calls : ℕ → List (Str × Str)) (p : Team GuardState (GuardedCall α)) :
    Prop where
  apart : ∀ i j, i ≠ j → (p.status i).isActive = true → (p.status j).isActive = true →
    Disjoint (calls i).toFinset (calls j).toFinset
  union : ∀ item, item ∈ p.shared.active ↔
    ∃ i, (p.status i).isActive = true ∧ item ∈ calls i
  rejects : ∀ i s (t : GuardedCall α), p.status i = .checking →
    guardedAction calls i p.shared .checking s t →
      (t = .rejecting ↔ ∃ item ∈ calls i, ∃ j, (p.status j).isActive = true ∧ item ∈ calls j)
  unchanged : ∀ i s (t : GuardedCall α), guardedAction calls i p.shared (p.status i) s t →
    t = .rejecting ∨ t = .rejected → s.active = p.shared.active
  emptied : (∀ i, (p.status i).isOver = true) → p.shared.active = ∅ ∧ p.shared.holder = none

/-- The guard of archive runs excludes the overlapping ones, and no others. -/
theorem singleArchiveRun_excludesOverlap
    (hrun : Relation.ReflTransGen (Step (guardedAction calls)) GuardedStart p) :
    ExcludesOverlap calls p := by
  have hexclusive := exclusive_of_reachable hrun
  refine ⟨?_, mem_active_iff hrun, ?_, ?_, released_of_isOver hrun⟩
  · intro i j hne hi hj
    rw [Finset.disjoint_left]
    intro item hitem hitem'
    exact hne (hexclusive.apart i j _ _ item (guardOf_admitted.mpr ⟨hi, rfl⟩)
      (guardOf_admitted.mpr ⟨hj, rfl⟩) hitem hitem')
  · intro i s t _ hact
    have hmeets : ¬ Disjoint (calls i).toFinset p.shared.active ↔
        ∃ item ∈ calls i, ∃ j, (p.status j).isActive = true ∧ item ∈ calls j := by
      rw [Finset.not_disjoint_iff]
      simp only [List.mem_toFinset, mem_active_iff hrun]
    rw [← hmeets]
    cases hact with
    | check => split_ifs with hdisjoint <;> simp [hdisjoint]
  · rintro i s t hact ht
    generalize p.status i = t₀ at hact
    cases hact with
    | update => rcases ht with ht | ht <;> cases ht
    | remove => rcases ht with ht | ht <;> cases ht
    | _ => rfl

/-- Two runs of one object: the second is rejected while the first is running. -/
theorem singleArchiveRun_excludesOverlap_of_overlap :
    ∃ p : Team GuardState (GuardedCall Unit),
      p.shared.holder = none ∧ p.status 0 = .running ∧ p.status 1 = .rejected ∧
        ExcludesOverlap (fun _ ↦ [("uploads".toList, "a.png".toList)]) p := by
  let calls : ℕ → List (Str × Str) := fun _ ↦ [("uploads".toList, "a.png".toList)]
  have hpasses : guardedAction (α := Unit) calls 0 ⟨some 0, ∅⟩ .checking ⟨some 0, ∅⟩ .passed := by
    have hcheck : GuardedStep (α := Unit) (calls 0).toFinset 0 ⟨some 0, ∅⟩ .checking _ _ := .check
    rwa [if_pos (Finset.disjoint_empty_right _)] at hcheck
  have hmeets : guardedAction (α := Unit) calls 1 ⟨some 1, ∅ ∪ (calls 0).toFinset⟩ .checking
      ⟨some 1, ∅ ∪ (calls 0).toFinset⟩ .rejecting := by
    have hcheck : GuardedStep (α := Unit) (calls 1).toFinset 1 ⟨some 1, ∅ ∪ (calls 0).toFinset⟩
        .checking _ _ := .check
    rwa [if_neg (by simp [calls])] at hcheck
  have hrun : Relation.ReflTransGen (Step (guardedAction (α := Unit) calls)) GuardedStart _ :=
    .tail (.tail (.tail (.tail (.tail (.tail (.tail .refl
      (.of_status (i := 0) rfl (.acquire rfl)))
      (.of_status (i := 0) rfl hpasses))
      (.of_status (i := 0) rfl .update))
      (.of_status (i := 0) rfl .release))
      (.of_status (i := 1) rfl (.acquire rfl)))
      (.of_status (i := 1) rfl hmeets))
      (.of_status (i := 1) rfl .reject)
  exact ⟨_, rfl, rfl, rfl, singleArchiveRun_excludesOverlap hrun⟩

end Active

end StorageReconciler
