import StorageReconciler.SharedReferences

/-!
# Buckets that values name

The bucket in a value decides whether the value is in scope, and is dropped
before the key is looked up among the objects of all scanned buckets.  A match
respects the name exactly when the object found under the key, the one listed
last, is of that bucket.
-/

namespace StorageReconciler

open Strings

variable {κ : Type*}

section Names

variable (T : Tables) (env : Env)

def NamesBucket (value bucket : Str) : Prop :=
  (splitObjectReference T env value).bucket = some bucket

/-- The bucket lists an object with the key, size and date of the matched file. -/
def IsListedAs (objs : List StorageObject) (bucket : Str) (m : MatchedFile κ) : Prop :=
  ∃ obj ∈ objs, obj.bucket = bucket ∧ obj.key = m.path ∧ obj.size = m.size ∧
    obj.lastModified = m.lastModified

/-- What a matched file says about a value that names a bucket holds of that bucket,
and a value whose key only other buckets list is not matched. -/
structure RespectsNames (refs : List (DbFileReference κ)) (objs : List StorageObject)
    (matched : List (MatchedFile κ)) : Prop where
  carries : ∀ m ∈ matched, ∀ value bucket, m.rawValue = some value →
    NamesBucket T env value bucket → m.bucket = bucket ∧ IsListedAs objs bucket m
  elsewhere : ∀ ref ∈ refs, ∀ bucket, NamesBucket T env ref.value bucket →
    (∀ obj ∈ objs, obj.key = keyOf T env ref → obj.bucket ≠ bucket) →
    ∀ m ∈ matched, m.rawValue ≠ some ref.value

/-- No object with the same key is listed after this one. -/
def IsLastListed (objs : List StorageObject) (obj : StorageObject) : Prop :=
  ∃ before after, objs = before ++ obj :: after ∧ ∀ other ∈ after, other.key ≠ obj.key

/-- Where a row comes first to a key and names a bucket, the object listed last under
the key is of that bucket. -/
def NamesLastListed (request : ReconciliationRequest) (buckets : List Str)
    (data : ScanData κ) : Prop :=
  ∀ ref bucket obj, inScope T env (effectiveProvider env request) buckets ref = true →
    IsFirstUse T env request buckets data ref → NamesBucket T env ref.value bucket →
    IsLastListed data.bucketResults.flatten obj → obj.key = keyOf T env ref →
    obj.bucket = bucket

end Names

theorem lastListing_eq_some_iff {bucketResults : List (List StorageObject)} {k : Str}
    {obj : StorageObject} :
    lastListing bucketResults k = some obj ↔
      IsLastListed bucketResults.flatten obj ∧ obj.key = k := by
  rw [lastListing, List.find?_eq_some_iff_append, decide_eq_true_eq, and_comm]
  apply and_congr_left
  intro hkey
  subst hkey
  constructor
  · rintro ⟨before, after, hlist, hbefore⟩
    refine ⟨after.reverse, before.reverse, ?_, fun other hother ↦ ?_⟩
    · rw [← List.reverse_reverse bucketResults.flatten, hlist]
      simp
    · have hne := hbefore other (List.mem_reverse.mp hother)
      simpa using hne
  · rintro ⟨before, after, hlist, hafter⟩
    refine ⟨after.reverse, before.reverse, ?_, fun other hother ↦ ?_⟩
    · rw [hlist]
      simp
    · have hne := hafter other (List.mem_reverse.mp hother)
      simpa using hne

section Respects

variable {T : Tables} {env : Env} {request : ReconciliationRequest} {buckets : List Str}
  {data : ScanData κ}

theorem matched_of_firstUse {ref : DbFileReference κ} {obj : StorageObject}
    (hscope : inScope T env (effectiveProvider env request) buckets ref = true)
    (huse : IsFirstUse T env request buckets data ref)
    (hlast : IsLastListed data.bucketResults.flatten obj) (hkey : obj.key = keyOf T env ref) :
    matchedOf (keyOf T env ref) ref obj ∈ (reconcile T env request buckets data).matched := by
  have hfirst := firstReference_eq_some_iff.mpr ⟨⟨hscope, rfl⟩, huse⟩
  exact mem_matched.mpr ⟨_, ref, obj, hfirst, lastListing_eq_some_iff.mpr ⟨hlast, hkey⟩, rfl⟩

theorem firstUse_of_matched {m : MatchedFile κ}
    (hm : m ∈ (reconcile T env request buckets data).matched) :
    ∃ ref obj, inScope T env (effectiveProvider env request) buckets ref = true ∧
      IsFirstUse T env request buckets data ref ∧
      IsLastListed data.bucketResults.flatten obj ∧ obj.key = keyOf T env ref ∧
      matchedOf (keyOf T env ref) ref obj = m := by
  obtain ⟨k, ref, obj, hfirst, hobj, rfl⟩ := mem_matched.mp hm
  obtain ⟨⟨hscope, rfl⟩, huse⟩ := firstReference_eq_some_iff.mp hfirst
  obtain ⟨hlast, hkey⟩ := lastListing_eq_some_iff.mp hobj
  exact ⟨ref, obj, hscope, huse, hlast, hkey, rfl⟩

theorem IsLastListed.mem {objs : List StorageObject} {obj : StorageObject}
    (h : IsLastListed objs obj) : obj ∈ objs := by
  obtain ⟨before, after, rfl, _⟩ := h
  simp

theorem RespectsNames.of_carries {refs : List (DbFileReference κ)}
    (h : ∀ m ∈ (reconcile T env request buckets data).matched, ∀ value bucket,
      m.rawValue = some value → NamesBucket T env value bucket →
        m.bucket = bucket ∧ IsListedAs data.bucketResults.flatten bucket m) :
    RespectsNames T env refs data.bucketResults.flatten
      (reconcile T env request buckets data).matched := by
  refine ⟨h, fun ref _ bucket hnames helsewhere m hm hraw ↦ ?_⟩
  obtain ⟨_, obj, hobj, hbucket, hpath, _, _⟩ := h m hm ref.value bucket hraw hnames
  obtain ⟨first, last, _, _, _, _, rfl⟩ := firstUse_of_matched hm
  have hvalue : first.value = ref.value := Option.some.inj hraw
  refine helsewhere obj hobj ?_ hbucket
  rw [hpath]
  change keyOf T env first = keyOf T env ref
  rw [keyOf, keyOf, hvalue]

end Respects

/-- The matches respect the buckets that values name exactly when every row that comes
first to a key and names a bucket names that of the object listed last. -/
theorem matched_respects_names_iff (T : Tables) (env : Env) (request : ReconciliationRequest)
    (buckets : List Str) (data : ScanData κ) :
    RespectsNames T env data.mappingResults.flatten data.bucketResults.flatten
        (reconcile T env request buckets data).matched ↔
      NamesLastListed T env request buckets data := by
  constructor
  · intro h ref bucket obj hscope huse hnames hlast hkey
    have hm := matched_of_firstUse hscope huse hlast hkey
    exact (h.carries _ hm ref.value bucket rfl hnames).1
  · intro h
    apply RespectsNames.of_carries
    intro m hm value bucket hraw hnames
    obtain ⟨ref, obj, hscope, huse, hlast, hkey, rfl⟩ := firstUse_of_matched hm
    obtain rfl : ref.value = value := Option.some.inj hraw
    have hbucket := h ref bucket obj hscope huse hnames hlast hkey
    exact ⟨hbucket, obj, hlast.mem, hbucket, hkey, rfl, rfl⟩

/-- A photo named in one school's bucket, and listed only in another's. -/
def otherSchoolsPhoto : ScanData ℕ where
  mappingResults := [[photoRow "https://sgp1.digitaloceanspaces.com/scola/a.png".toList]]
  bucketResults := [[], [⟨"tec".toList, "a.png".toList, 7, none, none⟩]]
  contentResults := none

theorem matched_in_other_bucket :
    ¬∀ (T : Tables) (env : Env) (request : ReconciliationRequest) (buckets : List Str)
      (data : ScanData ℕ), RespectsNames T env data.mappingResults.flatten
        data.bucketResults.flatten (reconcile T env request buckets data).matched := by
  intro h
  have hrespects := h Tables.ascii sgp1Env (photoRequest "scola".toList)
    ["scola".toList, "tec".toList] otherSchoolsPhoto
  have hmatched : ∃ m ∈ (reconcile Tables.ascii sgp1Env (photoRequest "scola".toList)
      ["scola".toList, "tec".toList] otherSchoolsPhoto).matched,
      m.rawValue = some "https://sgp1.digitaloceanspaces.com/scola/a.png".toList ∧
        m.bucket = "tec".toList := by decide
  obtain ⟨m, hm, hraw, hbucket⟩ := hmatched
  have hcarries := hrespects.carries m hm _ "scola".toList hraw (by unfold NamesBucket; decide)
  exact absurd (hbucket.symm.trans hcarries.1) (by decide)

end StorageReconciler
