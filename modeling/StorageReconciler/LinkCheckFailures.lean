import StorageReconciler.LinkCheckHosts

/-!
# Failures of the link check

The check of a URL turns the errors it expects into a failure of its item.  An error
it does not expect leaves the check, and with it the check of the whole list.
-/

namespace StorageReconciler

open Strings

/-- How building and sending the request for a URL ends. -/
inductive HttpCall where
  | response (status : ℕ)
  | httpError (status : ℕ) (reason : Str)
  | urlError (reason : Str)
  | osError (message : Str)
  | otherError (message : Str)
  deriving DecidableEq

/-- The request of an item, as `check` sees it. -/
def requestOutcome : HttpCall → CheckOutcome
  | .response status =>
      if status = 200 ∨ status = 206 then .checked true none
      else .checked false (some ("HTTP ".toList ++ (Nat.repr status).toList))
  | .httpError status reason => httpError status reason
  | .urlError reason => connectionError reason
  | .osError message => connectionError message
  | .otherError _ => .raised

def check (T : Tables) (env : Env) (url : Str) (call : HttpCall) : CheckOutcome :=
  match isConfiguredStorageUrl T env url with
  | none => .raised
  | some false => .checked false (some ("Destination URL is not an HTTPS URL for a " ++
      "configured storage provider").toList)
  | some true => requestOutcome call

structure LinkFailure where
  item : ValidateUrlItem
  error : Option Str
  deriving DecidableEq

def CheckOutcome.isRaised : CheckOutcome → Bool
  | raised => true
  | _ => false

def CheckOutcome.isValid : CheckOutcome → Bool
  | checked true _ => true
  | _ => false

def failureOf (item : ValidateUrlItem) : CheckOutcome → Option LinkFailure
  | .checked false error => some ⟨item, error⟩
  | _ => none

section Validate

variable (T : Tables) (env : Env) (items : List ValidateUrlItem) (calls : ℕ → HttpCall)

/-- The items with the outcomes of their checks. -/
def outcomesOf : List (ValidateUrlItem × CheckOutcome) :=
  items.zipIdx.map fun p ↦ (p.1, check T env p.1.destinationUrl (calls p.2))

/-- The list of the checks is gone through in the end, and whatever one of them raised is
raised again. -/
def validatePublicDestinationUrls : Option (List ValidateUrlItem × List LinkFailure) :=
  let outcomes := outcomesOf T env items calls
  if outcomes.any fun p ↦ p.2.isRaised then none
  else some ((outcomes.filter fun p ↦ p.2.isValid).map Prod.fst,
    outcomes.filterMap fun p ↦ failureOf p.1 p.2)

/-- A URL of a configured host whose request is answered well. -/
def isReachable (url : Str) (call : HttpCall) : Bool := (check T env url call).isValid

/-- The call returns, with the items in order in the one list or the other as their own
URL and request have it, each failure with its error. -/
def SplitsByOwnOutcome : Prop :=
  ∃ valid failures, validatePublicDestinationUrls T env items calls = some (valid, failures) ∧
    valid = (items.zipIdx.filter fun p ↦
      isReachable T env p.1.destinationUrl (calls p.2)).map Prod.fst ∧
    failures.map LinkFailure.item = (items.zipIdx.filter fun p ↦
      !isReachable T env p.1.destinationUrl (calls p.2)).map Prod.fst ∧
    ∀ failure ∈ failures, failure.error ≠ none

/-- The URL cannot be taken apart, or its request ends in an error of another kind. -/
def Escapes (url : Str) (call : HttpCall) : Prop :=
  isConfiguredStorageUrl T env url = none ∨
    isConfiguredStorageUrl T env url = some true ∧ ∃ message, call = .otherError message

variable {T env items calls}

theorem requestOutcome_isRaised_iff {call : HttpCall} :
    (requestOutcome call).isRaised = true ↔ ∃ message, call = .otherError message := by
  cases call with
  | response status =>
      rw [requestOutcome]
      split_ifs <;> simp [CheckOutcome.isRaised]
  | otherError message => simp [requestOutcome, CheckOutcome.isRaised]
  | _ => simp [requestOutcome, httpError, connectionError, CheckOutcome.isRaised]

theorem check_isRaised_iff {url : Str} {call : HttpCall} :
    (check T env url call).isRaised = true ↔ Escapes T env url call := by
  rw [check, Escapes]
  cases isConfiguredStorageUrl T env url with
  | none => simp [CheckOutcome.isRaised]
  | some accepted =>
      cases accepted with
      | false => simp [CheckOutcome.isRaised]
      | true => simp [requestOutcome_isRaised_iff]

theorem check_failed {url : Str} {call : HttpCall}
    (hraised : (check T env url call).isRaised = false)
    (hvalid : (check T env url call).isValid = false) :
    ∃ error, check T env url call = .checked false (some error) := by
  rw [check] at hraised hvalid ⊢
  cases hconfigured : isConfiguredStorageUrl T env url with
  | none => simp [hconfigured, CheckOutcome.isRaised] at hraised
  | some accepted =>
      cases accepted with
      | false => exact ⟨_, rfl⟩
      | true =>
          simp only [hconfigured] at hraised hvalid
          cases call with
          | response status =>
              by_cases hstatus : status = 200 ∨ status = 206
              · simp [requestOutcome, hstatus, CheckOutcome.isValid] at hvalid
              · exact ⟨_, if_neg hstatus⟩
          | otherError message => exact absurd hraised.symm Bool.false_ne_true
          | _ => exact ⟨_, rfl⟩

/-- Failures are the items that are not valid, in their order. -/
theorem map_item_failures (h : ∀ p ∈ outcomesOf T env items calls, p.2.isRaised = false) :
    ((outcomesOf T env items calls).filterMap fun p ↦ failureOf p.1 p.2).map LinkFailure.item =
        ((outcomesOf T env items calls).filter fun p ↦ !p.2.isValid).map Prod.fst ∧
      ∀ failure ∈ (outcomesOf T env items calls).filterMap fun p ↦ failureOf p.1 p.2,
        failure.error ≠ none := by
  have hfailed : ∀ p ∈ outcomesOf T env items calls, p.2.isValid = false →
      ∃ error, p.2 = .checked false (some error) := by
    intro p hp hvalid
    have hraised := h p hp
    obtain ⟨q, _, rfl⟩ := List.mem_map.mp hp
    exact check_failed hraised hvalid
  constructor
  · rw [List.map_filterMap, ← List.filterMap_eq_filter, List.map_filterMap]
    apply List.filterMap_congr
    intro p hp
    cases hvalid : p.2.isValid with
    | true =>
        have hnone : failureOf p.1 p.2 = none := by
          cases houtcome : p.2 with
          | checked valid error =>
              cases valid with
              | true => rfl
              | false => simp [houtcome, CheckOutcome.isValid] at hvalid
          | _ => rfl
        simp [hnone, Option.guard, hvalid]
    | false =>
        obtain ⟨error, herror⟩ := hfailed p hp hvalid
        simp [herror, failureOf, Option.guard, CheckOutcome.isValid]
  · intro failure hfailure
    obtain ⟨p, hp, hof⟩ := List.mem_filterMap.mp hfailure
    cases hvalid : p.2.isValid with
    | true =>
        cases houtcome : p.2 with
        | checked valid error =>
            cases valid with
            | true => simp [houtcome, failureOf] at hof
            | false => simp [houtcome, CheckOutcome.isValid] at hvalid
        | _ => simp [houtcome, failureOf] at hof
    | false =>
        obtain ⟨error, herror⟩ := hfailed p hp hvalid
        rw [herror, failureOf] at hof
        rw [← Option.some.inj hof]
        exact Option.some_ne_none error

/-- The check of the list tells each item apart by itself exactly when no item's check
raises what it does not catch. -/
theorem link_check_splits_iff (T : Tables) (env : Env) (items : List ValidateUrlItem)
    (calls : ℕ → HttpCall) :
    SplitsByOwnOutcome T env items calls ↔
      ∀ p ∈ items.zipIdx, ¬Escapes T env p.1.destinationUrl (calls p.2) := by
  have hraised : (outcomesOf T env items calls).any (fun p ↦ p.2.isRaised) = true ↔
      ∃ p ∈ items.zipIdx, Escapes T env p.1.destinationUrl (calls p.2) := by
    rw [outcomesOf, List.any_map, List.any_eq_true]
    simp only [Function.comp, check_isRaised_iff]
  have hpart : ∀ want : CheckOutcome → Bool,
      ((outcomesOf T env items calls).filter fun p ↦ want p.2).map Prod.fst =
        (items.zipIdx.filter fun p ↦
          want (check T env p.1.destinationUrl (calls p.2))).map Prod.fst := by
    intro want
    rw [outcomesOf, List.filter_map, List.map_map]
    rfl
  constructor
  · rintro ⟨valid, failures, hsome, _⟩ p hp hescapes
    rw [validatePublicDestinationUrls, if_pos (hraised.mpr ⟨p, hp, hescapes⟩)] at hsome
    exact nomatch hsome
  · intro h
    have hnone : ¬(outcomesOf T env items calls).any (fun p ↦ p.2.isRaised) = true := by
      rw [hraised]
      rintro ⟨p, hp, hescapes⟩
      exact h p hp hescapes
    have hchecked : ∀ p ∈ outcomesOf T env items calls, p.2.isRaised = false := by
      intro p hp
      by_contra hp'
      exact hnone (List.any_eq_true.mpr ⟨p, hp, Bool.eq_true_of_not_eq_false hp'⟩)
    obtain ⟨hfailures, herrors⟩ := map_item_failures hchecked
    refine ⟨_, _, if_neg hnone, hpart _, ?_, herrors⟩
    rw [hfailures, hpart fun outcome ↦ !outcome.isValid]
    rfl

end Validate

/-- A bracket in the host that is not closed. -/
def brokenUrl : Str := "https://[sgp1.digitaloceanspaces.com/a.png".toList

/-- One URL that cannot be taken apart, and no item is checked. -/
theorem broken_url_spoils_check :
    ¬∀ (T : Tables) (env : Env) (items : List ValidateUrlItem) (calls : ℕ → HttpCall),
      SplitsByOwnOutcome T env items calls := by
  intro h
  obtain ⟨valid, failures, hsome, _⟩ := h Tables.ascii sgp1Env
    [⟨"media".toList, "a.png".toList, spacesUrl⟩, ⟨"media".toList, "b.png".toList, brokenUrl⟩]
    fun _ ↦ .response 206
  have hnone : validatePublicDestinationUrls Tables.ascii sgp1Env
      [⟨"media".toList, "a.png".toList, spacesUrl⟩, ⟨"media".toList, "b.png".toList, brokenUrl⟩]
      (fun _ ↦ .response 206) = none := by decide
  exact nomatch hnone.symm.trans hsome

end StorageReconciler
