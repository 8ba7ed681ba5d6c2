import Mathlib.Data.Finset.Card
import Mathlib.Data.Finset.Range
import Mathlib.Logic.Function.Basic
import Mathlib.Logic.Relation
import StorageReconciler.Foundations.Strings

/-!
# Progress of the link check

The checks of destination URLs report one by one, and their outcomes gather in a
buffer.  A check with the right number queues the buffer for the event loop and
clears it.  What is queued is the buffer itself, so a frame shows what it holds
at the time it is written out.
-/

namespace StorageReconciler

open Strings

structure ValidateUrlItem where
  bucket : Str
  key : Str
  destinationUrl : Str
  deriving DecidableEq

/-- What a progress event says of an item. -/
structure ProgressResult where
  bucket : Str
  key : Str
  valid : Bool
  error : Option Str
  deriving DecidableEq

/-- A written frame, with its results by the index of their items. -/
structure ProgressFrame where
  completed : ℕ
  total : ℕ
  results : List ℕ
  deriving DecidableEq

/-- The counter of the checks, the buffer, the queued events and the written frames. -/
structure ProgressState where
  completed : ℕ
  pendingResults : List ℕ
  queue : List ℕ
  frames : List ProgressFrame

inductive CheckStatus where
  | checking
  | counted (completed : ℕ)
  | reported (completed : ℕ)
  deriving DecidableEq

structure ProgressRun where
  state : ProgressState
  status : ℕ → CheckStatus

def tickEvery (total : ℕ) : ℕ := max 1 (total / 150)

namespace ProgressState

variable (total : ℕ) (s : ProgressState)

def onProgress (index completed : ℕ) : ProgressState :=
  if completed = total ∨ completed % tickEvery total = 0 then
    { s with pendingResults := [], queue := s.queue ++ [completed] }
  else { s with pendingResults := s.pendingResults ++ [index] }

end ProgressState

/-- A check is counted, or reports with the number it has got, or the event loop writes
out the first queued event. -/
inductive ProgressStep (total : ℕ) : ProgressRun → ProgressRun → Prop where
  | count {p : ProgressRun} {i : ℕ} (item : i < total) (checking : p.status i = .checking) :
      ProgressStep total p
        ⟨{ p.state with completed := p.state.completed + 1 },
          Function.update p.status i (.counted (p.state.completed + 1))⟩
  | report {p : ProgressRun} {i completed : ℕ} (counted : p.status i = .counted completed) :
      ProgressStep total p
        ⟨p.state.onProgress total i completed,
          Function.update p.status i (.reported completed)⟩
  | serialise {p : ProgressRun} {completed : ℕ} {queue : List ℕ}
      (queued : p.state.queue = completed :: queue) :
      ProgressStep total p
        ⟨{ p.state with
            queue := queue
            frames := p.state.frames ++ [⟨completed, total, p.state.pendingResults⟩] },
          p.status⟩

def ProgressRun.start : ProgressRun := ⟨⟨0, [], [], []⟩, fun _ ↦ .checking⟩

/-- All checks have reported, and all events are written out. -/
structure ProgressRun.IsComplete (total : ℕ) (p : ProgressRun) : Prop where
  reported : ∀ i < total, ∃ completed, p.status i = .reported completed
  drained : p.state.queue = []

/-! ## The last check -/

section LastCheck

variable {total : ℕ} {p p' : ProgressRun}

def CheckStatus.number : CheckStatus → Option ℕ
  | checking => none
  | counted completed => some completed
  | reported completed => some completed

/-- The checks counted so far have the numbers up to the counter. -/
structure IsNumbered (total : ℕ) (p : ProgressRun) : Prop where
  card : p.state.completed =
    ((Finset.range total).filter fun i ↦ p.status i ≠ .checking).card
  number : ∀ m, 0 < m → m ≤ p.state.completed → ∃ i < total, (p.status i).number = some m

theorem ProgressStep.number_eq_some (hstep : ProgressStep total p p') {i m : ℕ}
    (h : (p.status i).number = some m) : (p'.status i).number = some m := by
  cases hstep with
  | @count j item checking =>
      have hne : i ≠ j := by
        rintro rfl
        rw [checking] at h
        cases h
      simpa only [Function.update_of_ne hne] using h
  | @report j completed counted =>
      by_cases hij : i = j
      · subst hij
        rw [counted] at h
        simpa only [Function.update_self, CheckStatus.number] using h
      · simpa only [Function.update_of_ne hij] using h
  | serialise queued => exact h

theorem ProgressStep.reported (hstep : ProgressStep total p p') {i completed : ℕ}
    (h : p.status i = .reported completed) : p'.status i = .reported completed := by
  cases hstep with
  | @count j item checking =>
      have hne : i ≠ j := by
        rintro rfl
        rw [checking] at h
        cases h
      simpa only [Function.update_of_ne hne] using h
  | @report j completed' counted =>
      have hne : i ≠ j := by
        rintro rfl
        rw [counted] at h
        cases h
      simpa only [Function.update_of_ne hne] using h
  | serialise queued => exact h

theorem IsNumbered.step (h : IsNumbered total p) (hstep : ProgressStep total p p') :
    IsNumbered total p' := by
  have hkept : ∀ m, 0 < m → m ≤ p.state.completed →
      ∃ i < total, (p'.status i).number = some m := by
    intro m hpos hm
    obtain ⟨i, hi, hnumber⟩ := h.number m hpos hm
    exact ⟨i, hi, hstep.number_eq_some hnumber⟩
  cases hstep with
  | @count i item checking =>
      refine ⟨?_, ?_⟩
      · have hinsert : ((Finset.range total).filter fun j ↦
            Function.update p.status i (.counted (p.state.completed + 1)) j ≠ .checking) =
            insert i ((Finset.range total).filter fun j ↦ p.status j ≠ .checking) := by
          ext j
          by_cases hj : j = i
          · subst hj
            simp [item]
          · simp [hj]
        have hnew : i ∉ (Finset.range total).filter fun j ↦ p.status j ≠ .checking := by
          simp [checking]
        change p.state.completed + 1 = _
        rw [hinsert, Finset.card_insert_of_notMem hnew, h.card]
      · intro m hpos hm
        rcases Nat.lt_or_eq_of_le hm with hlt | rfl
        · exact hkept m hpos (Nat.lt_succ_iff.mp hlt)
        · exact ⟨i, item, by simp only [Function.update_self, CheckStatus.number]⟩
  | @report i completed counted =>
      have hcompleted : (p.state.onProgress total i completed).completed = p.state.completed := by
        unfold ProgressState.onProgress
        split_ifs <;> rfl
      refine ⟨?_, ?_⟩
      · rw [hcompleted, h.card]
        congr 1
        ext j
        by_cases hj : j = i
        · subst hj
          simp [counted]
        · simp [hj]
      · rw [hcompleted]
        exact hkept
  | serialise queued => exact ⟨h.card, hkept⟩

/-- A check that has not reported, or has the last number, is neither in the buffer nor
in a frame. -/
def IsSilent (total : ℕ) (p : ProgressRun) : Prop :=
  ∀ i, (∀ completed, p.status i = .reported completed → completed = total) →
    i ∉ p.state.pendingResults ∧ ∀ f ∈ p.state.frames, i ∉ f.results

theorem IsSilent.step (h : IsSilent total p) (hstep : ProgressStep total p p') :
    IsSilent total p' := by
  intro j hj
  obtain ⟨hpending, hframes⟩ := h j fun completed hreported ↦
    hj completed (hstep.reported hreported)
  cases hstep with
  | count item checking => exact ⟨hpending, hframes⟩
  | @report i completed counted =>
      unfold ProgressState.onProgress
      split_ifs with hflush
      · exact ⟨by simp, hframes⟩
      · refine ⟨?_, hframes⟩
        have hne : j ≠ i := by
          rintro rfl
          exact hflush (.inl (hj completed (by simp only [Function.update_self])))
        simp [hpending, hne]
  | serialise queued =>
      refine ⟨hpending, ?_⟩
      intro f hf
      rcases List.mem_append.mp hf with hf | hf
      · exact hframes f hf
      · rw [List.mem_singleton.mp hf]
        exact hpending

theorem numbered_silent_of_reachable
    (hrun : Relation.ReflTransGen (ProgressStep total) ProgressRun.start p) :
    IsNumbered total p ∧ IsSilent total p := by
  induction hrun with
  | refl =>
      refine ⟨⟨by simp [ProgressRun.start], ?_⟩, ?_⟩
      · intro m hpos hm
        exact absurd (hpos.trans_le hm) (lt_irrefl 0)
      · intro i _
        simp [ProgressRun.start]
  | tail _ hstep ih => exact ⟨ih.1.step hstep, ih.2.step hstep⟩

/-- The item whose check is counted last is shown in no frame. -/
theorem exists_unreported (hrun : Relation.ReflTransGen (ProgressStep total) ProgressRun.start p)
    (hcomplete : p.IsComplete total) (hpos : 0 < total) :
    ∃ i < total, ∀ f ∈ p.state.frames, i ∉ f.results := by
  obtain ⟨hnumbered, hsilent⟩ := numbered_silent_of_reachable hrun
  have hcounted : p.state.completed = total := by
    rw [hnumbered.card, Finset.filter_true_of_mem, Finset.card_range]
    intro i hi
    obtain ⟨completed, hreported⟩ := hcomplete.reported i (Finset.mem_range.mp hi)
    rw [hreported]
    exact fun h ↦ by cases h
  obtain ⟨i, hi, hnumber⟩ := hnumbered.number total hpos hcounted.ge
  refine ⟨i, hi, (hsilent i ?_).2⟩
  intro completed hreported
  rw [hreported] at hnumber
  exact Option.some.inj hnumber

end LastCheck

/-! ## The outcomes in the frames -/

section Outcomes

variable (items : List ValidateUrlItem) (outcomes : ℕ → Bool × Option Str)

def progressResult (index : ℕ) : Option ProgressResult :=
  items[index]?.map fun item ↦ ⟨item.bucket, item.key, (outcomes index).1, (outcomes index).2⟩

/-- The outcome of each item is in the results of exactly one frame. -/
def DeliversOnce (frames : List ProgressFrame) : Prop :=
  ∀ i < items.length, ∃! j : ℕ, ∃ f : ProgressFrame, frames[j]? = some f ∧
    progressResult items outcomes i ∈ f.results.map (progressResult items outcomes)

/-- Where every event is written out as soon as it is queued, the frames are empty. -/
theorem exists_run_of_empty_frames (total m : ℕ) (hm : m ≤ total) :
    ∃ p, Relation.ReflTransGen (ProgressStep total) ProgressRun.start p ∧
      (∀ i < m, ∃ completed, p.status i = .reported completed) ∧
        (∀ i, m ≤ i → p.status i = .checking) ∧ p.state.queue = [] ∧
          ∀ f ∈ p.state.frames, f.results = [] := by
  induction m with
  | zero =>
      refine ⟨.start, .refl, ?_, fun _ _ ↦ rfl, rfl, ?_⟩
      · intro i hi
        exact absurd hi (Nat.not_lt_zero i)
      · simp [ProgressRun.start]
  | succ m ih =>
      obtain ⟨p, hrun, hreported, hchecking, hqueue, hframes⟩ := ih (Nat.le_of_succ_le hm)
      let c := p.state.completed + 1
      let status := Function.update (Function.update p.status m (.counted c)) m (.reported c)
      have hreport : Relation.ReflTransGen (ProgressStep total) ProgressRun.start
          ⟨({ p.state with completed := c } : ProgressState).onProgress total m c, status⟩ :=
        (hrun.tail (.count hm (hchecking m le_rfl))).tail
          (.report (Function.update_self ..))
      have hreported' : ∀ i < m + 1, ∃ completed, status i = .reported completed := by
        intro i hi
        by_cases him : i = m
        · subst him
          exact ⟨c, Function.update_self ..⟩
        · obtain ⟨completed, hstatus⟩ := hreported i (by omega)
          refine ⟨completed, ?_⟩
          simp only [status, Function.update_of_ne him, hstatus]
      have hchecking' : ∀ i, m + 1 ≤ i → status i = .checking := by
        intro i hi
        have him : i ≠ m := by omega
        simp only [status, Function.update_of_ne him]
        exact hchecking i (Nat.le_of_succ_le hi)
      unfold ProgressState.onProgress at hreport
      split_ifs at hreport with hflush
      · rw [hqueue, List.nil_append] at hreport
        refine ⟨_, hreport.tail (.serialise rfl), hreported', hchecking', rfl, ?_⟩
        intro f hf
        rcases List.mem_append.mp hf with hf | hf
        · exact hframes f hf
        · rw [List.mem_singleton.mp hf]
      · exact ⟨_, hreport, hreported', hchecking', hqueue, hframes⟩

/-- However the checks end, there is no nonempty list whose outcomes all reach the client:
in every complete run the frames lack an item, and in one of them they lack all. -/
theorem linkCheckProgress_neverDelivers (hitems : items ≠ []) :
    (∀ p, Relation.ReflTransGen (ProgressStep items.length) ProgressRun.start p →
      p.IsComplete items.length →
        ∃ i < items.length, ∀ f ∈ p.state.frames, i ∉ f.results) ∧
      ¬ ∀ p, Relation.ReflTransGen (ProgressStep items.length) ProgressRun.start p →
        p.IsComplete items.length → DeliversOnce items outcomes p.state.frames := by
  have hpos : 0 < items.length := List.length_pos_iff.mpr hitems
  refine ⟨fun p hrun hcomplete ↦ exists_unreported hrun hcomplete hpos, ?_⟩
  intro hdelivers
  obtain ⟨p, hrun, hreported, _, hqueue, hframes⟩ :=
    exists_run_of_empty_frames items.length items.length le_rfl
  obtain ⟨j, ⟨f, hf, hmem⟩, _⟩ := hdelivers p hrun ⟨hreported, hqueue⟩ 0 hpos
  rw [hframes f (List.mem_of_getElem? hf)] at hmem
  exact List.not_mem_nil hmem

/-- One item: its frame is written with an empty buffer. -/
theorem linkCheckProgress_neverDelivers_one :
    let items : List ValidateUrlItem :=
      [⟨"uploads".toList, "a.png".toList, "https://cdn.test/a.png".toList⟩]
    (∀ p, Relation.ReflTransGen (ProgressStep items.length) ProgressRun.start p →
      p.IsComplete items.length →
        ∃ i < items.length, ∀ f ∈ p.state.frames, i ∉ f.results) ∧
      ¬ ∀ p, Relation.ReflTransGen (ProgressStep items.length) ProgressRun.start p →
        p.IsComplete items.length →
          DeliversOnce items (fun _ ↦ (true, none)) p.state.frames :=
  linkCheckProgress_neverDelivers _ _ (List.cons_ne_nil _ _)

end Outcomes

/-- The check of one readable link ends with one frame, which has no results. -/
theorem linkCheckProgress_lost :
    ∃ p, Relation.ReflTransGen (ProgressStep 1) ProgressRun.start p ∧ p.IsComplete 1 ∧
      p.state.frames = [⟨1, 1, []⟩] ∧
        ¬ DeliversOnce [⟨"uploads".toList, "a.png".toList, "https://cdn.test/a.png".toList⟩]
          (fun _ ↦ (true, none)) p.state.frames := by
  have hrun : Relation.ReflTransGen (ProgressStep 1) ProgressRun.start _ :=
    .tail (.tail (.tail .refl (.count (i := 0) (by decide) rfl)) (.report (i := 0) rfl))
      (.serialise rfl)
  refine ⟨_, hrun, ⟨?_, rfl⟩, rfl, ?_⟩
  · intro i hi
    obtain rfl : i = 0 := by omega
    exact ⟨1, rfl⟩
  · intro hdelivers
    obtain ⟨j, ⟨f, hf, hmem⟩, _⟩ := hdelivers 0 (by decide)
    have hframe : f ∈ [(⟨1, 1, []⟩ : ProgressFrame)] := List.mem_of_getElem? hf
    rw [List.mem_singleton.mp hframe] at hmem
    exact List.not_mem_nil hmem

end StorageReconciler
