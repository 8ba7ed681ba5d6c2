import StorageReconciler.Reconciliation

/-!
# Fetching one item

A mapping, a bucket or a rich-text column is taken from its checkpoint, or else
fetched up to three times and saved.  An item that still fails counts as empty.
-/

namespace StorageReconciler

open Strings Patterns

variable {α δ κ : Type*}

def retryAttempts : ℕ := 3

/-- The attempts from number `attempt` on, `left` of them after the first. -/
def retry (fn : ℕ → Except Str α) (attempt : ℕ) : ℕ → Except Str α
  | 0 => fn attempt
  | left + 1 =>
      match fn attempt with
      | .ok a => .ok a
      | .error _ => retry fn (attempt + 1) left

def withRetries (fn : ℕ → Except Str α) : Except Str α := retry fn 1 (retryAttempts - 1)

theorem exists_of_retry {fn : ℕ → Except Str α} {attempt left : ℕ} {a : α}
    (h : retry fn attempt left = .ok a) : ∃ n, fn n = .ok a := by
  induction left generalizing attempt with
  | zero => exact ⟨attempt, h⟩
  | succ left ih =>
      rw [retry] at h
      cases hfn : fn attempt with
      | ok b =>
          rw [hfn] at h
          exact ⟨attempt, hfn.trans h⟩
      | error e =>
          rw [hfn] at h
          exact ih h

def isRegionMismatchError (message : Str) : Bool :=
  searchLiteral "must be addressed using the specified endpoint".toList message

/-- What `work` leaves behind for one item. -/
structure ItemResult (δ : Type*) where
  value : δ
  error : Option Str

/-- `work`, given what the checkpoint holds and how fetching and saving would end. -/
def work (empty : δ) (report : Str → Option Str) (cached : Option δ) (fetched : Except Str δ)
    (saved : Except Str Unit) : ItemResult δ :=
  match cached with
  | some d => ⟨d, none⟩
  | none =>
      match fetched with
      | .error e => ⟨empty, report e⟩
      | .ok d =>
          match saved with
          | .error e => ⟨empty, report e⟩
          | .ok () => ⟨d, none⟩

def mappingWork : Option (List (DbFileReference κ)) → Except Str (List (DbFileReference κ)) →
    Except Str Unit → ItemResult (List (DbFileReference κ)) :=
  work [] some

/-- A bucket of another region is left out without an error. -/
def bucketError (message : Str) : Option Str :=
  if isRegionMismatchError message then none else some message

def bucketWork : Option (List StorageObject) → Except Str (List StorageObject) →
    Except Str Unit → ItemResult (List StorageObject) :=
  work [] bucketError

def contentWork : Option (Finset Str × ℕ) → Except Str (Finset Str × ℕ) → Except Str Unit →
    ItemResult (Finset Str × ℕ) :=
  work (∅, 0) some

/-- How the work on an item ends: with data, or with an error on the way. -/
def attempted (cached : Option δ) (fetched : Except Str δ) (saved : Except Str Unit) :
    Except Str δ :=
  match cached with
  | some d => .ok d
  | none => fetched.bind fun d ↦ saved.map fun _ ↦ d

def itemResult (empty : δ) (report : Str → Option Str) : Except Str δ → ItemResult δ
  | .ok d => ⟨d, none⟩
  | .error e => ⟨empty, report e⟩

theorem work_eq_itemResult (empty : δ) (report : Str → Option Str) (cached : Option δ)
    (fetched : Except Str δ) (saved : Except Str Unit) :
    work empty report cached fetched saved =
      itemResult empty report (attempted cached fetched saved) := by
  cases cached with
  | some d => rfl
  | none =>
      cases fetched with
      | error e => rfl
      | ok d => cases saved <;> rfl

/-- The attempts at every item of a run without checkpoints. -/
structure FetchAttempts (κ : Type*) where
  mappings : List (ℕ → Except Str (List (DbFileReference κ)))
  buckets : List (ℕ → Except Str (List StorageObject))
  content : Option (List (ℕ → Except Str (Finset Str × ℕ)))

def FetchAttempts.scan (a : FetchAttempts κ) : ScanData κ where
  mappingResults := a.mappings.map fun fn ↦ (mappingWork none (withRetries fn) (.ok ())).value
  bucketResults := a.buckets.map fun fn ↦ (bucketWork none (withRetries fn) (.ok ())).value
  contentResults := a.content.map fun fns ↦
    fns.map fun fn ↦ (contentWork none (withRetries fn) (.ok ())).value

/-! ## Failing items -/

/-- Exactly the items of `failed` fail after all retries, and the others deliver `data`. -/
def Delivers (failed : Finset ℕ) (attempts : List (ℕ → Except Str δ)) (data : List δ) : Prop :=
  attempts.length = data.length ∧
    ∀ i fn d, attempts[i]? = some fn → data[i]? = some d →
      if i ∈ failed then ∃ e, withRetries fn = .error e else withRetries fn = .ok d

def withhold (failed : Finset ℕ) (empty : δ) (data : List δ) : List δ :=
  data.mapIdx fun i d ↦ if i ∈ failed then empty else d

theorem Delivers.map_work {failed : Finset ℕ} {attempts : List (ℕ → Except Str δ)}
    {data : List δ} (h : Delivers failed attempts data) (empty : δ)
    (report : Str → Option Str) :
    attempts.map (fun fn ↦ (work empty report none (withRetries fn) (.ok ())).value) =
      withhold failed empty data := by
  apply List.ext_getElem
  · simp [withhold, h.1]
  · intro i hi hi'
    have hlt : i < attempts.length := by simpa using hi
    have hlt' : i < data.length := by simpa [withhold] using hi'
    have hitem := h.2 i attempts[i] data[i] (List.getElem?_eq_getElem hlt)
      (List.getElem?_eq_getElem hlt')
    simp only [withhold, List.getElem_map, List.getElem_mapIdx]
    by_cases hfail : i ∈ failed
    · rw [if_pos hfail] at hitem ⊢
      obtain ⟨e, he⟩ := hitem
      rw [he]
      rfl
    · rw [if_neg hfail] at hitem ⊢
      rw [hitem]
      rfl

theorem mem_withhold {failed : Finset ℕ} {empty d : δ} {data : List δ} :
    d ∈ withhold failed empty data ↔
      (∃ i ∉ failed, data[i]? = some d) ∨ ∃ i ∈ failed, i < data.length ∧ d = empty := by
  rw [withhold, List.mem_iff_getElem?]
  simp only [List.getElem?_mapIdx, Option.map_eq_some_iff]
  constructor
  · rintro ⟨i, d', hd', heq⟩
    by_cases hfail : i ∈ failed
    · rw [if_pos hfail] at heq
      have hlt : i < data.length := by
        by_contra hge
        simp [List.getElem?_eq_none (Nat.le_of_not_lt hge)] at hd'
      exact .inr ⟨i, hfail, hlt, heq.symm⟩
    · rw [if_neg hfail] at heq
      exact .inl ⟨i, hfail, heq ▸ hd'⟩
  · rintro (⟨i, hfail, hd⟩ | ⟨i, hfail, hlt, rfl⟩)
    · exact ⟨i, d, hd, by simp [hfail]⟩
    · exact ⟨i, data[i], List.getElem?_eq_getElem hlt, by simp [hfail]⟩

theorem withhold_empty (empty : δ) (data : List δ) : withhold ∅ empty data = data := by
  apply List.ext_getElem <;> simp [withhold]

def timedOut : Str := "timed out".toList

/-- Attempts that time out on the failing items and succeed at once on the others. -/
def attemptsFor (failed : Finset ℕ) (data : List δ) : List (ℕ → Except Str δ) :=
  data.mapIdx fun i d _ ↦ if i ∈ failed then .error timedOut else .ok d

theorem delivers_attemptsFor (failed : Finset ℕ) (data : List δ) :
    Delivers failed (attemptsFor failed data) data := by
  refine ⟨List.length_mapIdx, fun i fn d hfn hd ↦ ?_⟩
  rw [attemptsFor, List.getElem?_mapIdx, hd, Option.map_some] at hfn
  obtain rfl := Option.some.inj hfn
  split_ifs with hfail
  · exact ⟨_, rfl⟩
  · rfl

end StorageReconciler
