import StorageReconciler.Listing
import StorageReconciler.PartialFailure

/-!
# Missing files

A file is missing when a row in scope refers to its key and the listings do not
contain it.  The listings are limited to the prefix of the request and the rows
are not, so a missing file is really gone exactly when the prefix covers every
key in scope that a scanned bucket holds.
-/

namespace StorageReconciler

open Strings

variable {κ : Type*}

def Holds (storage : Str → List S3Object) (bucket k : Str) : Prop :=
  ∃ obj ∈ storage bucket, obj.key = k

/-- A run in which every mapping and every bucket was read, the buckets through
services that answer from the storage. -/
structure FetchAttempts.Reads (a : FetchAttempts κ) (storage : Str → List S3Object)
    (listObjects : ℕ → ListObjects) (keyPrefix : Option Str) (buckets : List Str)
    (mappingResults : List (List (DbFileReference κ))) : Prop where
  mappings : StorageReconciler.Delivers ∅ a.mappings mappingResults
  answers : ∀ n, ∃ service : ListingService storage, service.Answers (listObjects n)
  buckets : List.Forall₂ (fun bucket fn ↦
    ∀ n, CollectsBucket (listObjects n) bucket keyPrefix (fn n)) buckets a.buckets
  succeeds : ∀ fn ∈ a.buckets, ∃ objs, withRetries fn = .ok objs

/-- No scanned bucket holds an object under the path of a missing file. -/
def MissingIsGone (storage : Str → List S3Object) (buckets : List Str)
    (r : ReconciliationResult κ) : Prop :=
  ∀ m ∈ r.missing, ∀ bucket ∈ buckets, ¬Holds storage bucket m.path

/-- The prefix covers each key in scope that a scanned bucket holds. -/
def PrefixCovers (T : Tables) (env : Env) (request : ReconciliationRequest)
    (storage : Str → List S3Object) (buckets : List Str) (refs : List (DbFileReference κ)) : Prop :=
  ∀ ref ∈ refs, inScope T env (effectiveProvider env request) buckets ref = true →
    ∀ bucket ∈ buckets, Holds storage bucket (keyOf T env ref) →
      HasPrefix request.keyPrefix (keyOf T env ref)

section Missing

variable {T : Tables} {env : Env} {request : ReconciliationRequest} {buckets : List Str}
  {a : FetchAttempts κ} {storage : Str → List S3Object} {listObjects : ℕ → ListObjects}
  {keyPrefix : Option Str} {mappingResults : List (List (DbFileReference κ))}

theorem FetchAttempts.Reads.mappingResults_eq
    (h : a.Reads storage listObjects keyPrefix buckets mappingResults) :
    a.scan.mappingResults = mappingResults := by
  have hmappings := h.mappings.map_work [] some
  rw [withhold_empty] at hmappings
  exact hmappings

theorem FetchAttempts.Reads.map_bucketWork
    (h : a.Reads storage listObjects keyPrefix buckets mappingResults) {names : List Str}
    {fns : List (ℕ → Except Str (List StorageObject))}
    (hall : List.Forall₂ (fun bucket fn ↦
      ∀ n, CollectsBucket (listObjects n) bucket keyPrefix (fn n)) names fns)
    (hok : ∀ fn ∈ fns, ∃ objs, withRetries fn = .ok objs) :
    fns.map (fun fn ↦ (bucketWork none (withRetries fn) (.ok ())).value) =
      names.map (listedObjects storage keyPrefix) := by
  induction hall with
  | nil => rfl
  | @cons bucket fn names fns hfn _ ih =>
      obtain ⟨objs, hobjs⟩ := hok fn List.mem_cons_self
      obtain ⟨n, hn⟩ := exists_of_retry hobjs
      obtain ⟨service, hanswers⟩ := h.answers n
      have heq := hanswers.eq_listedObjects (hn ▸ hfn n)
      rw [List.map_cons, List.map_cons, ih fun fn hfn ↦ hok fn (List.mem_cons_of_mem _ hfn),
        hobjs, ← heq]
      rfl

theorem FetchAttempts.Reads.bucketResults_eq
    (h : a.Reads storage listObjects keyPrefix buckets mappingResults) :
    a.scan.bucketResults = buckets.map (listedObjects storage keyPrefix) :=
  h.map_bucketWork h.buckets h.succeeds

theorem lastListing_listed_eq_none_iff {k : Str} :
    lastListing (buckets.map (listedObjects storage keyPrefix)) k = none ↔
      ∀ bucket ∈ buckets, HasPrefix keyPrefix k → ¬Holds storage bucket k := by
  rw [lastListing_eq_none_iff]
  simp only [List.forall_mem_map, Lists, mem_listedObjects, not_and, Holds]

/-- Missing means gone exactly when the prefix covers every key in scope that a
scanned bucket holds. -/
theorem missing_is_gone_iff
    (h : a.Reads storage listObjects request.keyPrefix buckets mappingResults) :
    MissingIsGone storage buckets (reconcile T env request buckets a.scan) ↔
      PrefixCovers T env request storage buckets mappingResults.flatten := by
  have hmissing : ∀ k, k ∈ (reconcile T env request buckets a.scan).missing.map MissingFile.path ↔
      (firstReference T env request buckets mappingResults k).isSome = true ∧
        ∀ bucket ∈ buckets, HasPrefix request.keyPrefix k → ¬Holds storage bucket k := by
    intro k
    rw [mem_missing_paths, h.mappingResults_eq, h.bucketResults_eq, lastListing_listed_eq_none_iff]
  constructor
  · intro hgone ref href hscope bucket hbucket hholds
    by_contra hprefix
    have hfirst : (firstReference T env request buckets mappingResults (keyOf T env ref)).isSome =
        true := by
      rw [firstReference, List.find?_isSome]
      exact ⟨ref, href, by simp [hscope]⟩
    have hk := (hmissing (keyOf T env ref)).mpr ⟨hfirst, fun _ _ hp ↦ absurd hp hprefix⟩
    obtain ⟨m, hm, hpath⟩ := List.mem_map.mp hk
    exact hgone m hm bucket hbucket (hpath ▸ hholds)
  · intro hcovers m hm bucket hbucket hholds
    obtain ⟨hfirst, hunlisted⟩ := (hmissing m.path).mp (List.mem_map_of_mem hm)
    obtain ⟨ref, href⟩ := Option.isSome_iff_exists.mp hfirst
    have hmem := List.mem_of_find?_eq_some href
    have hfound := List.find?_some href
    rw [Bool.and_eq_true, decide_eq_true_eq] at hfound
    obtain ⟨hscope, hkey⟩ := hfound
    have hprefix := hcovers ref hmem hscope bucket hbucket (hkey ▸ hholds)
    exact hunlisted bucket hbucket (hkey ▸ hprefix) hholds

end Missing

/-! ## A listing limited to a folder -/

/-- The service of a storage whose listings fit on one page. -/
def onePageService (storage : Str → List S3Object) : ListingService storage where
  reply request :=
    { contents := some ((storage request.bucket).filter fun obj ↦
        decide (HasPrefix request.keyPrefix obj.key))
      isTruncated := some false
      nextContinuationToken := none }
  delivers _ _ := .last rfl

/-- Every column and bucket is read at the first attempt. -/
def readAtOnce (storage : Str → List S3Object) (keyPrefix : Option Str) (buckets : List Str)
    (mappingResults : List (List (DbFileReference κ))) : FetchAttempts κ where
  mappings := attemptsFor ∅ mappingResults
  buckets := buckets.map fun bucket _ ↦ .ok (listedObjects storage keyPrefix bucket)
  content := none

theorem collectsBucket_onePage (storage : Str → List S3Object) (keyPrefix : Option Str)
    (bucket : Str) :
    CollectsBucket (fun request ↦ .ok ((onePageService storage).reply request)) bucket keyPrefix
      (.ok (listedObjects storage keyPrefix bucket)) := by
  refine ⟨1, ?_⟩
  rw [iterateBucketObjects, TokenPaging.collect_of_last rfl rfl]
  change some (Except.ok (listedObjects storage (orElse keyPrefix none) bucket)) = _
  simp only [listedObjects, hasPrefix_orElse]

theorem reads_readAtOnce (storage : Str → List S3Object) (keyPrefix : Option Str)
    (buckets : List Str) (mappingResults : List (List (DbFileReference κ))) :
    (readAtOnce storage keyPrefix buckets mappingResults).Reads storage
      (fun _ request ↦ .ok ((onePageService storage).reply request)) keyPrefix buckets
      mappingResults where
  mappings := delivers_attemptsFor _ _
  answers _ := ⟨onePageService storage, fun _ _ h ↦ (Except.ok.inj h).symm⟩
  buckets := by
    rw [readAtOnce, List.forall₂_map_right_iff, List.forall₂_same]
    exact fun bucket _ _ ↦ collectsBucket_onePage storage keyPrefix bucket
  succeeds := by
    intro fn hfn
    obtain ⟨bucket, _, rfl⟩ := List.mem_map.mp hfn
    exact ⟨_, rfl⟩

/-- The school's bucket with one photo. -/
def photoStorage (bucket : Str) : List S3Object :=
  if bucket = "scola".toList then [⟨"a.png".toList, some 5, none, none⟩] else []

/-- A request for a folder only. -/
def folderRequest (folder : Str) : ReconciliationRequest :=
  { photoRequest "scola".toList with keyPrefix := some folder }

theorem missing_is_gone_iff_photo :
    MissingIsGone photoStorage ["scola".toList]
        (reconcile Tables.ascii sgp1Env (folderRequest "a".toList) ["scola".toList]
          (readAtOnce photoStorage (some "a".toList) ["scola".toList]
            [[photoRow "a.png".toList]]).scan) ↔
      PrefixCovers Tables.ascii sgp1Env (folderRequest "a".toList) photoStorage ["scola".toList]
        [photoRow "a.png".toList] :=
  missing_is_gone_iff (reads_readAtOnce photoStorage _ _ [[photoRow "a.png".toList]])

/-- The photo lies outside the listed folder, and the row that refers to it is
reported as missing its file. -/
theorem missing_outside_folder :
    ¬∀ (T : Tables) (env : Env) (request : ReconciliationRequest) (buckets : List Str)
      (a : FetchAttempts ℕ) (storage : Str → List S3Object) (listObjects : ℕ → ListObjects)
      (mappingResults : List (List (DbFileReference ℕ))),
      a.Reads storage listObjects request.keyPrefix buckets mappingResults →
      MissingIsGone storage buckets (reconcile T env request buckets a.scan) := by
  intro h
  have hgone := h Tables.ascii sgp1Env (folderRequest "photos/".toList) ["scola".toList] _
    photoStorage _ _ (reads_readAtOnce photoStorage _ _ [[photoRow "a.png".toList]])
  have hmissing : ∃ m ∈ (reconcile Tables.ascii sgp1Env (folderRequest "photos/".toList)
      ["scola".toList] (readAtOnce photoStorage (some "photos/".toList) ["scola".toList]
        [[photoRow "a.png".toList]]).scan).missing, m.path = "a.png".toList := by decide
  obtain ⟨m, hm, hpath⟩ := hmissing
  have hno := hgone m hm "scola".toList List.mem_cons_self
  rw [hpath] at hno
  exact hno ⟨⟨"a.png".toList, some 5, none, none⟩, by decide, rfl⟩

end StorageReconciler
