import Mathlib.Data.List.Basic
import Mathlib.Logic.Function.Basic
import Mathlib.Logic.Relation
import Mathlib.Tactic.Common

/-!
# Pools of resumable tasks

Workers share a store of finished items.  A task whose item is stored takes it
from there; any other one produces its item, and stores it, or fails.  The two
steps of a task may be separated by steps of the others.

Whatever is true of the items stored and of those the tasks produce is true of
everything the store and the results ever hold.
-/

namespace StorageReconciler.ResumablePool

variable {φ δ ε : Type*} [DecidableEq φ]

/-- The item a task is about, and how producing it would end. -/
abbrev Task (φ δ ε : Type*) := φ × Except ε δ

inductive Status (δ ε : Type*) where
  | waiting
  | working
  | done (result : Except ε δ)

structure Pool (φ δ ε : Type*) where
  store : φ → Option δ
  status : ℕ → Status δ ε

def Pool.start (store : φ → Option δ) : Pool φ δ ε := ⟨store, fun _ ↦ .waiting⟩

/-- One worker takes one step. -/
inductive Step (tasks : List (Task φ δ ε)) : Pool φ δ ε → Pool φ δ ε → Prop where
  | hit {p : Pool φ δ ε} {i : ℕ} {f : φ} {o : Except ε δ} {d : δ} (task : tasks[i]? = some (f, o))
      (waiting : p.status i = .waiting) (stored : p.store f = some d) :
      Step tasks p ⟨p.store, Function.update p.status i (.done (.ok d))⟩
  | miss {p : Pool φ δ ε} {i : ℕ} {f : φ} {o : Except ε δ} (task : tasks[i]? = some (f, o))
      (waiting : p.status i = .waiting) (absent : p.store f = none) :
      Step tasks p ⟨p.store, Function.update p.status i .working⟩
  | save {p : Pool φ δ ε} {i : ℕ} {f : φ} {d : δ} (task : tasks[i]? = some (f, .ok d))
      (working : p.status i = .working) :
      Step tasks p ⟨Function.update p.store f (some d),
        Function.update p.status i (.done (.ok d))⟩
  | fail {p : Pool φ δ ε} {i : ℕ} {f : φ} {e : ε} (task : tasks[i]? = some (f, .error e))
      (working : p.status i = .working) :
      Step tasks p ⟨p.store, Function.update p.status i (.done (.error e))⟩

/-- All tasks have been worked off, in some order of their steps. -/
def Completes (tasks : List (Task φ δ ε)) (store store' : φ → Option δ)
    (results : List (Except ε δ)) : Prop :=
  results.length = tasks.length ∧ ∃ p, Relation.ReflTransGen (Step tasks) (.start store) p ∧
    p.store = store' ∧ ∀ i r, results[i]? = some r → p.status i = .done r

/-- One task after the other. -/
def inOrder (store : φ → Option δ) : List (Task φ δ ε) → (φ → Option δ) × List (Except ε δ)
  | [] => (store, [])
  | (f, o) :: tasks =>
      match store f, o with
      | some d, _ => ((inOrder store tasks).1, .ok d :: (inOrder store tasks).2)
      | none, .ok d =>
          let rest := inOrder (Function.update store f (some d)) tasks
          (rest.1, .ok d :: rest.2)
      | none, .error e => ((inOrder store tasks).1, .error e :: (inOrder store tasks).2)

/-! ## What a run preserves -/

/-- An item that satisfies `P`, or the failure of the task. -/
def IsSoundResult (P : φ → δ → Prop) (f : φ) (o r : Except ε δ) : Prop :=
  (∃ d, r = .ok d ∧ P f d) ∨ ∃ e, r = .error e ∧ o = .error e

/-- Every stored item and every result is sound. -/
structure Sound (tasks : List (Task φ δ ε)) (P : φ → δ → Prop) (p : Pool φ δ ε) : Prop where
  store : ∀ f d, p.store f = some d → P f d
  result : ∀ i f o r, tasks[i]? = some (f, o) → p.status i = .done r → IsSoundResult P f o r

omit [DecidableEq φ] in
theorem Sound.start {tasks : List (Task φ δ ε)} {P : φ → δ → Prop} {store : φ → Option δ}
    (hstore : ∀ f d, store f = some d → P f d) : Sound tasks P (.start store) :=
  ⟨hstore, fun _ _ _ _ _ h ↦ nomatch h⟩

section Invariant

variable {tasks : List (Task φ δ ε)} {P : φ → δ → Prop} {p p' : Pool φ δ ε}

omit [DecidableEq φ] in
theorem Sound.update (h : Sound tasks P p) {i : ℕ} {f : φ} {o : Except ε δ} {s : Status δ ε}
    (task : tasks[i]? = some (f, o)) (hs : ∀ r, s = .done r → IsSoundResult P f o r)
    {store : φ → Option δ} (hstore : ∀ f d, store f = some d → P f d) :
    Sound tasks P ⟨store, Function.update p.status i s⟩ := by
  refine ⟨hstore, fun j f' o' r htask hdone ↦ ?_⟩
  simp only [Function.update_apply] at hdone
  split_ifs at hdone with hj
  · subst hj
    obtain ⟨rfl, rfl⟩ := Prod.mk.inj (Option.some.inj (task.symm.trans htask))
    exact hs r hdone
  · exact h.result j f' o' r htask hdone

theorem Sound.step (hok : ∀ f d, (f, .ok d) ∈ tasks → P f d) (h : Sound tasks P p)
    (hstep : Step tasks p p') : Sound tasks P p' := by
  cases hstep with
  | @hit i f o d task _ stored =>
      refine h.update task ?_ h.store
      rintro r ⟨rfl⟩
      exact .inl ⟨d, rfl, h.store f d stored⟩
  | miss task _ _ =>
      refine h.update task ?_ h.store
      rintro r ⟨⟩
  | @save i f d task _ =>
      have hd := hok f d (List.mem_of_getElem? task)
      refine h.update task ?_ fun f' d' hstored ↦ ?_
      · rintro r ⟨rfl⟩
        exact .inl ⟨d, rfl, hd⟩
      · rw [Function.update_apply] at hstored
        split_ifs at hstored with hf
        · obtain rfl := Option.some.inj hstored
          exact hf ▸ hd
        · exact h.store f' d' hstored
  | @fail i f e task _ =>
      refine h.update task ?_ h.store
      rintro r ⟨rfl⟩
      exact .inr ⟨e, rfl, rfl⟩

theorem Sound.reflTransGen (hok : ∀ f d, (f, .ok d) ∈ tasks → P f d) (h : Sound tasks P p)
    (hrun : Relation.ReflTransGen (Step tasks) p p') : Sound tasks P p' := by
  induction hrun with
  | refl => exact h
  | tail _ hstep ih => exact ih.step hok hstep

end Invariant

/-- A run keeps the store sound, and its results are. -/
theorem Completes.sound {tasks : List (Task φ δ ε)} {P : φ → δ → Prop}
    {store store' : φ → Option δ} {results : List (Except ε δ)}
    (h : Completes tasks store store' results) (hstore : ∀ f d, store f = some d → P f d)
    (hok : ∀ f d, (f, .ok d) ∈ tasks → P f d) :
    (∀ f d, store' f = some d → P f d) ∧
      ∀ (i : ℕ) (f : φ) (o r : Except ε δ), tasks[i]? = some (f, o) → results[i]? = some r →
        IsSoundResult P f o r := by
  obtain ⟨_, p, hrun, rfl, hdone⟩ := h
  have hstart : Sound tasks P (.start store) := .start hstore
  have hsound := hstart.reflTransGen hok hrun
  exact ⟨hsound.store, fun i f o r htask hr ↦ hsound.result i f o r htask (hdone i r hr)⟩

/-- Where a task succeeded, the item of such a task is stored. -/
def Stored (tasks : List (Task φ δ ε)) (p : Pool φ δ ε) : Prop :=
  ∀ i f o d, tasks[i]? = some (f, o) → p.status i = .done (.ok d) →
    ∃ j o' d', tasks[j]? = some (f, o') ∧ p.status j = .done (.ok d') ∧ p.store f = some d'

section Stored

variable {tasks : List (Task φ δ ε)} {p p' : Pool φ δ ε}

omit [DecidableEq φ] in
/-- What a task that is not done yet comes to leaves the others stored. -/
theorem Stored.update (h : Stored tasks p) {i : ℕ} {s : Status δ ε} {store : φ → Option δ}
    (hactive : ∀ r, p.status i ≠ .done r)
    (hstore : ∀ f, store f ≠ p.store f → ∃ o d, tasks[i]? = some (f, o) ∧
      s = .done (.ok d) ∧ store f = some d)
    (hs : ∀ f o d, tasks[i]? = some (f, o) → s = .done (.ok d) → store f = some d) :
    Stored tasks ⟨store, Function.update p.status i s⟩ := by
  intro j f o d htask hdone
  simp only [Function.update_apply] at hdone ⊢
  split_ifs at hdone with hj
  · subst hj
    exact ⟨j, o, d, htask, by rw [if_pos rfl, hdone], hs f o d htask hdone⟩
  · obtain ⟨k, o', d', htask', hdone', hstored⟩ := h j f o d htask hdone
    by_cases hkeeps : store f = p.store f
    · have hk : k ≠ i := by
        rintro rfl
        exact hactive _ hdone'
      exact ⟨k, o', d', htask', by rw [if_neg hk, hdone'], hkeeps.trans hstored⟩
    · obtain ⟨o'', d'', htask'', hs'', hstored''⟩ := hstore f hkeeps
      exact ⟨i, o'', d'', htask'', by rw [if_pos rfl, hs''], hstored''⟩

theorem Stored.step (h : Stored tasks p) (hstep : Step tasks p p') : Stored tasks p' := by
  cases hstep with
  | @hit i f o d task waiting stored =>
      apply h.update (by simp [waiting]) fun _ hne ↦ absurd rfl hne
      intro f' o' d' htask hdone
      obtain ⟨rfl, _⟩ := Prod.mk.inj (Option.some.inj (task.symm.trans htask))
      cases hdone
      exact stored
  | miss _ waiting _ =>
      apply h.update (by simp [waiting]) fun _ hne ↦ absurd rfl hne
      intro f' o' d' _ hdone
      cases hdone
  | fail _ working =>
      apply h.update (by simp [working]) fun _ hne ↦ absurd rfl hne
      intro f' o' d' _ hdone
      cases hdone
  | @save i f d task working =>
      apply h.update (by simp [working])
      · intro f' hne
        by_cases hf : f' = f
        · subst hf
          exact ⟨_, d, task, rfl, Function.update_self ..⟩
        · exact absurd (Function.update_of_ne hf _ _) hne
      · intro f' o' d' htask hdone
        obtain ⟨rfl, _⟩ := Prod.mk.inj (Option.some.inj (task.symm.trans htask))
        cases hdone
        exact Function.update_self ..

theorem stored_of_reachable {store : φ → Option δ}
    (hrun : Relation.ReflTransGen (Step tasks) (.start store) p) : Stored tasks p := by
  induction hrun with
  | refl =>
      intro j f o d _ hwaiting
      cases hwaiting
  | tail _ hstep ih => exact ih.step hstep

theorem Completes.stored {store store' : φ → Option δ} {results : List (Except ε δ)}
    (h : Completes tasks store store' results) {i : ℕ} {f : φ} {o : Except ε δ} {d : δ}
    (htask : tasks[i]? = some (f, o)) (hresult : results[i]? = some (.ok d)) :
    ∃ (j : ℕ) (o' : Except ε δ) (d' : δ), tasks[j]? = some (f, o') ∧
      results[j]? = some (.ok d') ∧ store' f = some d' := by
  obtain ⟨hlength, p, hrun, rfl, hdone⟩ := h
  obtain ⟨j, o', d', htask', hdone', hstored⟩ :=
    stored_of_reachable hrun i f o d htask (hdone i _ hresult)
  obtain ⟨hlt, _⟩ := List.getElem?_eq_some_iff.mp htask'
  have hlt' : j < results.length := hlength ▸ hlt
  have hresult' : results[j]? = some results[j] := List.getElem?_eq_getElem hlt'
  have hsame : results[j] = .ok d' := Status.done.inj ((hdone j _ hresult').symm.trans hdone')
  exact ⟨j, o', d', htask', hresult'.trans (congrArg some hsame), hstored⟩

end Stored

/-! ## One after the other is a run -/

theorem length_inOrder (store : φ → Option δ) (tasks : List (Task φ δ ε)) :
    (inOrder store tasks).2.length = tasks.length := by
  induction tasks generalizing store with
  | nil => rfl
  | cons t tasks ih =>
      obtain ⟨f, o⟩ := t
      unfold inOrder
      cases store f with
      | some d => simp [ih]
      | none => cases o <;> simp [ih]

theorem inOrder_ok {store : φ → Option δ} {tasks : List (Task φ δ ε)}
    (h : ∀ t ∈ tasks, ∃ d, t.2 = .ok d) : ∀ r ∈ (inOrder store tasks).2, ∃ d, r = .ok d := by
  induction tasks generalizing store with
  | nil => simp [inOrder]
  | cons t tasks ih =>
      obtain ⟨f, o⟩ := t
      obtain ⟨⟨d, hd⟩, hrest⟩ := List.forall_mem_cons.mp h
      obtain rfl : o = .ok d := hd
      unfold inOrder
      cases store f with
      | some d' => exact List.forall_mem_cons.mpr ⟨⟨d', rfl⟩, ih hrest⟩
      | none => exact List.forall_mem_cons.mpr ⟨⟨d, rfl⟩, ih hrest⟩

theorem exists_first_done {tasks rest : List (Task φ δ ε)} {n : ℕ} {f : φ} {o : Except ε δ}
    {p : Pool φ δ ε} (htask : tasks[n]? = some (f, o)) (hstart : p.status n = .waiting) :
    ∃ q r, Relation.ReflTransGen (Step tasks) p q ∧
      q.status = Function.update p.status n (.done r) ∧
      inOrder p.store ((f, o) :: rest) =
        ((inOrder q.store rest).1, r :: (inOrder q.store rest).2) := by
  cases hstored : p.store f with
  | some d =>
      exact ⟨_, .ok d, .single (.hit htask hstart hstored), rfl, by simp [inOrder, hstored]⟩
  | none =>
      have hmiss := Step.miss htask hstart hstored
      have hworking : (Function.update p.status n Status.working) n = Status.working :=
        Function.update_self ..
      cases o with
      | ok d =>
          exact ⟨_, .ok d, .tail (.single hmiss) (.save htask hworking),
            Function.update_idem .., by simp [inOrder, hstored]⟩
      | error e =>
          exact ⟨_, .error e, .tail (.single hmiss) (.fail htask hworking),
            Function.update_idem .., by simp [inOrder, hstored]⟩

theorem inOrder_reachable (tasks : List (Task φ δ ε)) (before rest : List (Task φ δ ε))
    (htasks : tasks = before ++ rest) (p : Pool φ δ ε)
    (hwaiting : ∀ i, before.length ≤ i → p.status i = .waiting) :
    ∃ p', Relation.ReflTransGen (Step tasks) p p' ∧ p'.store = (inOrder p.store rest).1 ∧
      (∀ i < before.length, p'.status i = p.status i) ∧
      ∀ i r, (inOrder p.store rest).2[i]? = some r → p'.status (before.length + i) = .done r := by
  induction rest generalizing before p with
  | nil => exact ⟨p, .refl, rfl, fun _ _ ↦ rfl, by simp [inOrder]⟩
  | cons t rest ih =>
      obtain ⟨f, o⟩ := t
      have htask : tasks[before.length]? = some (f, o) := by simp [htasks]
      obtain ⟨q, r, hq, hstatus, horder⟩ :=
        exists_first_done htask (hwaiting before.length (Nat.le_refl _))
      have hlength : (before ++ [(f, o)]).length = before.length + 1 := by simp
      have hwaiting' : ∀ i, (before ++ [(f, o)]).length ≤ i → q.status i = .waiting := by
        intro i hi
        rw [hlength] at hi
        rw [hstatus, Function.update_of_ne (by omega)]
        exact hwaiting i (by omega)
      obtain ⟨p', hrun, hstore, hbefore, hrest⟩ :=
        ih (before ++ [(f, o)]) (by simp [htasks]) q hwaiting'
      rw [horder]
      refine ⟨p', hq.trans hrun, hstore, ?_, ?_⟩
      · intro i hi
        rw [hbefore i (by omega), hstatus, Function.update_of_ne (Nat.ne_of_lt hi)]
      · intro i r' hr
        cases i with
        | zero =>
            obtain rfl := Option.some.inj hr
            rw [Nat.add_zero, hbefore before.length (by omega), hstatus, Function.update_self]
        | succ i =>
            have hnext := hrest i r' (by simpa using hr)
            rw [hlength] at hnext
            rwa [Nat.add_comm i 1, ← Nat.add_assoc]

theorem completes_inOrder (store : φ → Option δ) (tasks : List (Task φ δ ε)) :
    Completes tasks store (inOrder store tasks).1 (inOrder store tasks).2 := by
  obtain ⟨p, hrun, hstore, _, hdone⟩ := inOrder_reachable tasks [] tasks rfl (.start store)
    (fun _ _ ↦ rfl)
  exact ⟨length_inOrder store tasks, p, hrun, hstore, fun i r hr ↦ by simpa using hdone i r hr⟩

end StorageReconciler.ResumablePool
