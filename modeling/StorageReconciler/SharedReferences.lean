import StorageReconciler.Reconciliation

/-!
# Rows that refer to one object

The matched files carry one row each, and a migration rewrites those rows.  A
row whose object was already claimed by an earlier row is rewritten only if it
cannot be told from a row that comes first to some object.
-/

namespace StorageReconciler

open Strings

variable {κ : Type*}

section Rows

variable (T : Tables) (env : Env) (request : ReconciliationRequest) (buckets : List Str)
  (data : ScanData κ)

/-- The reference takes part in the comparison and its key is a listed object. -/
def IsListedReference (ref : DbFileReference κ) : Prop :=
  inScope T env (effectiveProvider env request) buckets ref = true ∧
    ∃ obj ∈ data.bucketResults.flatten, obj.key = keyOf T env ref

/-- A row the classification reads before every other one in scope for the same key. -/
def IsFirstUse (ref : DbFileReference κ) : Prop :=
  ∃ before after, data.mappingResults.flatten = before ++ ref :: after ∧
    ∀ other ∈ before, inScope T env (effectiveProvider env request) buckets other = true →
      keyOf T env other ≠ keyOf T env ref

end Rows

/-- The two rows have the same table, column and id. -/
def SameRow (ref ref' : DbFileReference κ) : Prop :=
  ref'.table = ref.table ∧ ref'.column = ref.column ∧ ref'.id = ref.id

/-- The matched file carries the table, column and id of the row. -/
def CarriesRow (m : MatchedFile κ) (ref : DbFileReference κ) : Prop :=
  m.table = ref.table ∧ m.column = ref.column ∧ m.id = ref.id

section Cover

variable {T : Tables} {env : Env} {request : ReconciliationRequest} {buckets : List Str}
  {data : ScanData κ}

theorem firstReference_eq_some_iff {k : Str} {ref : DbFileReference κ} :
    firstReference T env request buckets data.mappingResults k = some ref ↔
      (inScope T env (effectiveProvider env request) buckets ref = true ∧ keyOf T env ref = k) ∧
        ∃ before after, data.mappingResults.flatten = before ++ ref :: after ∧
          ∀ other ∈ before, inScope T env (effectiveProvider env request) buckets other = true →
            keyOf T env other ≠ k := by
  rw [firstReference, List.find?_eq_some_iff_append]
  simp only [Bool.and_eq_true, decide_eq_true_eq, Bool.not_eq_true', Bool.and_eq_false_iff,
    decide_eq_false_iff_not]
  refine and_congr_right fun _ ↦ exists_congr fun before ↦ exists_congr fun after ↦
    and_congr_right fun _ ↦ forall_congr' fun other ↦ forall_congr' fun _ ↦ ?_
  cases inScope T env (effectiveProvider env request) buckets other <;> simp

theorem exists_lastListing_iff {k : Str} :
    (∃ obj, lastListing data.bucketResults k = some obj) ↔
      ∃ obj ∈ data.bucketResults.flatten, obj.key = k := by
  rw [← Option.isSome_iff_exists, lastListing, List.find?_isSome]
  simp

/-- The rows that matched files carry are the first uses of listed objects. -/
theorem exists_matched_iff {ref : DbFileReference κ} :
    (∃ m ∈ (reconcile T env request buckets data).matched, CarriesRow m ref) ↔
      ∃ first, IsListedReference T env request buckets data first ∧
        IsFirstUse T env request buckets data first ∧ SameRow ref first := by
  constructor
  · rintro ⟨m, hm, hrow⟩
    obtain ⟨k, first, obj, hfirst, hobj, rfl⟩ := mem_matched.mp hm
    obtain ⟨⟨hscope, rfl⟩, huse⟩ := firstReference_eq_some_iff.mp hfirst
    exact ⟨first, ⟨hscope, exists_lastListing_iff.mp ⟨obj, hobj⟩⟩, huse, hrow⟩
  · rintro ⟨first, ⟨hscope, hlisted⟩, huse, hrow⟩
    obtain ⟨obj, hobj⟩ := exists_lastListing_iff.mpr hlisted
    have hfirst := firstReference_eq_some_iff.mpr ⟨⟨hscope, rfl⟩, huse⟩
    exact ⟨_, mem_matched.mpr ⟨_, first, obj, hfirst, hobj, rfl⟩, hrow⟩

end Cover

end StorageReconciler
