import StorageReconciler.EmbeddedKeys
import StorageReconciler.Foundations.OrderedDict

/-!
# Classifying what was read

A run reads references from the mapped columns, objects from the buckets and
embedded keys from the rich-text columns.  Everything after the reading is a
function of what was read: each key is indexed by the first reference to it and
the last object listed under it, and the two indices are compared.
-/

namespace StorageReconciler

open Strings

variable {κ : Type*}

/-- What the fetches of a run delivered, one entry for each mapping, bucket and
rich-text column; there is no third part when no such columns were asked for. -/
structure ScanData (κ : Type*) where
  mappingResults : List (List (DbFileReference κ))
  bucketResults : List (List StorageObject)
  contentResults : Option (List (Finset Str × ℕ))

/-! ## References -/

structure ReferenceIndex (κ : Type*) where
  dbFiles : OrderedDict Str (DbFileReference κ)
  databaseFileCount : ℕ
  otherProviderCount : ℕ
  differentProviderCount : ℕ

def effectiveProvider (env : Env) (request : ReconciliationRequest) : Option Str :=
  orElse request.provider env.s3DefaultProviderKey

/-- The address names a provider other than the one scanned. -/
def isDifferentProvider (effective urlProvider : Option Str) : Bool :=
  urlProvider.isSome && effective.isSome && urlProvider != effective

/-- The address names a bucket that is not scanned. -/
def isOtherBucket (buckets : List Str) (urlBucket : Option Str) : Bool :=
  match urlBucket with
  | some b => !buckets.contains b
  | none => false

def indexReference (T : Tables) (env : Env) (effective : Option Str) (buckets : List Str)
    (index : ReferenceIndex κ) (ref : DbFileReference κ) : ReferenceIndex κ :=
  let r := splitObjectReference T env ref.value
  let count := index.databaseFileCount + 1
  if isDifferentProvider effective r.providerHint then
    { index with
      databaseFileCount := count
      differentProviderCount := index.differentProviderCount + 1 }
  else if isOtherBucket buckets r.bucket then
    { index with
      databaseFileCount := count
      otherProviderCount := index.otherProviderCount + 1 }
  else
    { index with
      databaseFileCount := count
      dbFiles := index.dbFiles.setdefault r.key ref }

def indexReferences (T : Tables) (env : Env) (effective : Option Str) (buckets : List Str)
    (mappingResults : List (List (DbFileReference κ))) : ReferenceIndex κ :=
  mappingResults.flatten.foldl (indexReference T env effective buckets)
    ⟨OrderedDict.empty, 0, 0, 0⟩

/-- The reference takes part in the comparison. -/
def inScope (T : Tables) (env : Env) (effective : Option Str) (buckets : List Str)
    (ref : DbFileReference κ) : Bool :=
  let r := splitObjectReference T env ref.value
  !isDifferentProvider effective r.providerHint && !isOtherBucket buckets r.bucket

def keyOf (T : Tables) (env : Env) (ref : DbFileReference κ) : Str :=
  (splitObjectReference T env ref.value).key

/-! ## Objects -/

def indexObjects (bucketResults : List (List StorageObject)) : OrderedDict Str StorageObject :=
  bucketResults.flatten.foldl (fun d obj ↦ d.insert obj.key obj) OrderedDict.empty

def orphanOf (key : Str) (obj : StorageObject) : OrphanFile :=
  ⟨key, obj.bucket, obj.size, obj.lastModified⟩

/-! ## The comparison -/

def matchedOf (path : Str) (ref : DbFileReference κ) (obj : StorageObject) : MatchedFile κ where
  path := path
  bucket := obj.bucket
  size := obj.size
  table := ref.table
  column := ref.column
  id := ref.id
  lastModified := obj.lastModified
  rawValue := some ref.value

def matchedFiles (dbFiles : OrderedDict Str (DbFileReference κ))
    (storageObjects : OrderedDict Str StorageObject) : List (MatchedFile κ) :=
  dbFiles.entries.filterMap fun (path, ref) ↦
    (storageObjects.get? path).map (matchedOf path ref)

def unmatchedFiles (dbFiles : OrderedDict Str (DbFileReference κ))
    (storageObjects : OrderedDict Str StorageObject) : List (Str × DbFileReference κ) :=
  dbFiles.entries.filter fun e ↦ !storageObjects.contains e.1

/-- Where the matched files of a column were found first. -/
def bucketByMapping (matched : List (MatchedFile κ)) : OrderedDict (Str × Str) Str :=
  matched.foldl (fun d m ↦ d.setdefault (m.table, m.column) m.bucket) OrderedDict.empty

def singleBucketHint (buckets : List Str) : Option Str :=
  match buckets with
  | [b] => some b
  | _ => none

def missingFile (hint : Option Str) (byMapping : OrderedDict (Str × Str) Str) (path : Str)
    (ref : DbFileReference κ) : MissingFile κ where
  path := path
  table := ref.table
  column := ref.column
  id := ref.id
  bucket := orElse hint (byMapping.get? (ref.table, ref.column))
  rawValue := some ref.value

def rawOrphans (dbFiles : OrderedDict Str (DbFileReference κ))
    (storageObjects : OrderedDict Str StorageObject) : List OrphanFile :=
  (storageObjects.entries.filter fun e ↦ !dbFiles.contains e.1).map fun e ↦ orphanOf e.1 e.2

/-- All keys found embedded, and the number of rows they were sought in. -/
def collectContent (results : List (Finset Str × ℕ)) : Finset Str × ℕ :=
  results.foldl (fun acc r ↦ (acc.1 ∪ r.1, acc.2 + r.2)) (∅, 0)

def reconcile (T : Tables) (env : Env) (request : ReconciliationRequest) (buckets : List Str)
    (data : ScanData κ) : ReconciliationResult κ :=
  let index := indexReferences T env (effectiveProvider env request) buckets data.mappingResults
  let storageObjects := indexObjects data.bucketResults
  let matched := matchedFiles index.dbFiles storageObjects
  let byMapping := bucketByMapping matched
  let missing := (unmatchedFiles index.dbFiles storageObjects).map fun e ↦
    missingFile (singleBucketHint buckets) byMapping e.1 e.2
  let rawOrphan := rawOrphans index.dbFiles storageObjects
  let content := (data.contentResults.map collectContent).getD (∅, 0)
  let orphan := rawOrphan.filter fun o ↦ decide (o.path ∉ content.1)
  let protect := rawOrphan.filter fun o ↦ decide (o.path ∈ content.1)
  { matched := matched
    missing := missing
    orphan := orphan
    «protected» := protect
    summary :=
      { matchedCount := matched.length
        missingCount := missing.length
        orphanCount := orphan.length
        databaseFileCount := index.databaseFileCount
        storageObjectCount := data.bucketResults.flatten.length
        otherProviderCount := index.otherProviderCount
        differentProviderCount := index.differentProviderCount
        protectedCount := protect.length
        contentReferenceCount := content.2 } }

/-! ## What the indices hold -/

section Index

variable (T : Tables) (env : Env) (effective : Option Str) (buckets : List Str)

theorem dbFiles_indexReference (index : ReferenceIndex κ) (ref : DbFileReference κ) :
    (indexReference T env effective buckets index ref).dbFiles =
      if inScope T env effective buckets ref then
        index.dbFiles.setdefault (keyOf T env ref) ref
      else index.dbFiles := by
  unfold indexReference inScope keyOf
  simp only
  by_cases hprovider :
      isDifferentProvider effective (splitObjectReference T env ref.value).providerHint = true
  · simp [hprovider]
  · by_cases hbucket :
        isOtherBucket buckets (splitObjectReference T env ref.value).bucket = true <;>
      simp [hprovider, hbucket]

theorem get?_foldl_indexReference (refs : List (DbFileReference κ)) (index : ReferenceIndex κ)
    (k : Str) :
    (refs.foldl (indexReference T env effective buckets) index).dbFiles.get? k =
      (index.dbFiles.get? k).or
        (refs.find? fun ref ↦
          inScope T env effective buckets ref && decide (keyOf T env ref = k)) := by
  induction refs generalizing index with
  | nil => simp
  | cons ref refs ih =>
      rw [List.foldl_cons, ih, dbFiles_indexReference]
      cases hscope : inScope T env effective buckets ref with
      | false => simp [hscope]
      | true =>
          rw [if_pos rfl, OrderedDict.get?_setdefault]
          by_cases hk : keyOf T env ref = k
          · subst hk
            cases hget : index.dbFiles.get? (keyOf T env ref) <;> simp [hscope]
          · have hk' : ¬k = keyOf T env ref := fun h ↦ hk h.symm
            simp [hk, hk']

/-- A key is indexed by the first reference in scope that names it. -/
theorem get?_dbFiles (mappingResults : List (List (DbFileReference κ))) (k : Str) :
    (indexReferences T env effective buckets mappingResults).dbFiles.get? k =
      mappingResults.flatten.find? fun ref ↦
        inScope T env effective buckets ref && decide (keyOf T env ref = k) := by
  rw [indexReferences, get?_foldl_indexReference]
  simp

end Index

/-- A key is indexed by the last object listed under it. -/
theorem get?_indexObjects (bucketResults : List (List StorageObject)) (k : Str) :
    (indexObjects bucketResults).get? k =
      bucketResults.flatten.reverse.find? fun obj ↦ decide (obj.key = k) := by
  have hpairs : indexObjects bucketResults =
      (bucketResults.flatten.map fun obj ↦ (obj.key, obj)).foldl
        (fun d e ↦ d.insert e.1 e.2) .empty := by
    rw [indexObjects, List.foldl_map]
  calc
    (indexObjects bucketResults).get? k =
        ((bucketResults.flatten.map fun obj ↦ (obj.key, obj)).reverse.find? fun e ↦
          decide (e.1 = k)).map Prod.snd := by
      rw [hpairs, OrderedDict.get?_foldl_insert, OrderedDict.get?_empty, Option.or_none]
    _ = (bucketResults.flatten.reverse.find? fun obj ↦ decide (obj.key = k)).map fun obj ↦ obj := by
      rw [← List.map_reverse, List.find?_map, Option.map_map]
      rfl
    _ = bucketResults.flatten.reverse.find? fun obj ↦ decide (obj.key = k) := Option.map_id'

theorem get?_indexObjects_eq_none_iff (bucketResults : List (List StorageObject)) (k : Str) :
    (indexObjects bucketResults).get? k = none ↔
      ∀ objs ∈ bucketResults, ∀ obj ∈ objs, obj.key ≠ k := by
  rw [get?_indexObjects, List.find?_eq_none]
  simp only [List.mem_reverse, List.mem_flatten, decide_eq_true_eq]
  constructor
  · exact fun h objs hobjs obj hobj ↦ h obj ⟨objs, hobjs, hobj⟩
  · rintro h obj ⟨objs, hobjs, hobj⟩
    exact h objs hobjs obj hobj

theorem mem_collectContent {results : List (Finset Str × ℕ)} {k : Str} :
    k ∈ (collectContent results).1 ↔ ∃ r ∈ results, k ∈ r.1 := by
  have hfold : ∀ (results : List (Finset Str × ℕ)) (acc : Finset Str × ℕ),
      k ∈ (results.foldl (fun acc r ↦ (acc.1 ∪ r.1, acc.2 + r.2)) acc).1 ↔
        k ∈ acc.1 ∨ ∃ r ∈ results, k ∈ r.1 := by
    intro results
    induction results with
    | nil => simp
    | cons r results ih =>
        intro acc
        rw [List.foldl_cons, ih]
        simp [or_assoc]
  simp [collectContent, hfold]

/-! ## What the result holds -/

theorem mem_matchedFiles {dbFiles : OrderedDict Str (DbFileReference κ)}
    {storageObjects : OrderedDict Str StorageObject} {m : MatchedFile κ} :
    m ∈ matchedFiles dbFiles storageObjects ↔
      ∃ path ref obj, dbFiles.get? path = some ref ∧ storageObjects.get? path = some obj ∧
        matchedOf path ref obj = m := by
  rw [matchedFiles, List.mem_filterMap]
  constructor
  · rintro ⟨⟨path, ref⟩, hmem, hm⟩
    obtain ⟨obj, hobj, rfl⟩ := Option.map_eq_some_iff.mp hm
    exact ⟨path, ref, obj, OrderedDict.get?_eq_some_iff.mpr hmem, hobj, rfl⟩
  · rintro ⟨path, ref, obj, href, hobj, rfl⟩
    exact ⟨(path, ref), OrderedDict.get?_eq_some_iff.mp href, by simp [hobj]⟩

theorem mem_unmatchedFiles {dbFiles : OrderedDict Str (DbFileReference κ)}
    {storageObjects : OrderedDict Str StorageObject} {e : Str × DbFileReference κ} :
    e ∈ unmatchedFiles dbFiles storageObjects ↔
      dbFiles.get? e.1 = some e.2 ∧ storageObjects.get? e.1 = none := by
  rw [unmatchedFiles, List.mem_filter, ← OrderedDict.get?_eq_some_iff, Bool.not_eq_true',
    OrderedDict.contains_eq_false_iff]

theorem mem_rawOrphans {dbFiles : OrderedDict Str (DbFileReference κ)}
    {storageObjects : OrderedDict Str StorageObject} {o : OrphanFile} :
    o ∈ rawOrphans dbFiles storageObjects ↔
      ∃ k obj, storageObjects.get? k = some obj ∧ dbFiles.get? k = none ∧ orphanOf k obj = o := by
  rw [rawOrphans, List.mem_map]
  constructor
  · rintro ⟨⟨k, obj⟩, hmem, rfl⟩
    obtain ⟨hobj, href⟩ := List.mem_filter.mp hmem
    rw [Bool.not_eq_true', OrderedDict.contains_eq_false_iff] at href
    exact ⟨k, obj, OrderedDict.get?_eq_some_iff.mpr hobj, href, rfl⟩
  · rintro ⟨k, obj, hobj, href, rfl⟩
    refine ⟨(k, obj), List.mem_filter.mpr ⟨OrderedDict.get?_eq_some_iff.mp hobj, ?_⟩, rfl⟩
    rw [Bool.not_eq_true', OrderedDict.contains_eq_false_iff]
    exact href

section Result

variable {T : Tables} {env : Env} {request : ReconciliationRequest} {buckets : List Str}
  {data : ScanData κ}

/-- The first reference in scope to a key. -/
def firstReference (T : Tables) (env : Env) (request : ReconciliationRequest)
    (buckets : List Str) (mappingResults : List (List (DbFileReference κ))) (k : Str) :
    Option (DbFileReference κ) :=
  mappingResults.flatten.find? fun ref ↦
    inScope T env (effectiveProvider env request) buckets ref && decide (keyOf T env ref = k)

/-- The last object listed under a key. -/
def lastListing (bucketResults : List (List StorageObject)) (k : Str) : Option StorageObject :=
  bucketResults.flatten.reverse.find? fun obj ↦ decide (obj.key = k)

/-- Whether a rich-text column embeds the key. -/
def IsEmbedded (contentResults : Option (List (Finset Str × ℕ))) (k : Str) : Prop :=
  ∃ results ∈ contentResults, ∃ r ∈ results, k ∈ r.1

theorem mem_matched {m : MatchedFile κ} :
    m ∈ (reconcile T env request buckets data).matched ↔
      ∃ k ref obj, firstReference T env request buckets data.mappingResults k = some ref ∧
        lastListing data.bucketResults k = some obj ∧ matchedOf k ref obj = m := by
  simp only [reconcile, mem_matchedFiles, get?_dbFiles, get?_indexObjects, firstReference,
    lastListing]

theorem mem_missing {m : MissingFile κ} (h : m ∈ (reconcile T env request buckets data).missing) :
    ∃ ref, firstReference T env request buckets data.mappingResults m.path = some ref ∧
      lastListing data.bucketResults m.path = none ∧ m.table = ref.table ∧
      m.column = ref.column ∧ m.id = ref.id ∧ m.rawValue = some ref.value := by
  simp only [reconcile, List.mem_map] at h
  obtain ⟨⟨k, ref⟩, hmem, rfl⟩ := h
  obtain ⟨href, hobj⟩ := mem_unmatchedFiles.mp hmem
  rw [get?_dbFiles] at href
  rw [get?_indexObjects] at hobj
  exact ⟨ref, href, hobj, rfl, rfl, rfl, rfl⟩

theorem mem_missing_paths {k : Str} :
    k ∈ (reconcile T env request buckets data).missing.map MissingFile.path ↔
      (firstReference T env request buckets data.mappingResults k).isSome = true ∧
        lastListing data.bucketResults k = none := by
  simp only [reconcile, List.map_map, List.mem_map, Prod.exists, mem_unmatchedFiles, get?_dbFiles,
    get?_indexObjects, firstReference, lastListing]
  constructor
  · rintro ⟨path, ref, ⟨href, hobj⟩, rfl⟩
    exact ⟨Option.isSome_iff_exists.mpr ⟨ref, href⟩, hobj⟩
  · rintro ⟨hsome, hobj⟩
    obtain ⟨ref, href⟩ := Option.isSome_iff_exists.mp hsome
    exact ⟨k, ref, ⟨href, hobj⟩, rfl⟩

theorem mem_content {k : Str} :
    k ∈ ((data.contentResults.map collectContent).getD (∅, 0)).1 ↔
      IsEmbedded data.contentResults k := by
  cases hcontent : data.contentResults with
  | none => simp [IsEmbedded]
  | some results => simp [IsEmbedded, mem_collectContent]

theorem mem_filter_rawOrphans (p : Str → Prop) [DecidablePred p] {o : OrphanFile} :
    o ∈ (rawOrphans (indexReferences T env (effectiveProvider env request) buckets
        data.mappingResults).dbFiles (indexObjects data.bucketResults)).filter
          (fun o ↦ decide (p o.path)) ↔
      ∃ k obj, lastListing data.bucketResults k = some obj ∧
        firstReference T env request buckets data.mappingResults k = none ∧
        p k ∧ orphanOf k obj = o := by
  simp only [List.mem_filter, decide_eq_true_eq, mem_rawOrphans, get?_dbFiles,
    get?_indexObjects, firstReference, lastListing]
  constructor
  · rintro ⟨⟨k, obj, hobj, href, rfl⟩, hp⟩
    exact ⟨k, obj, hobj, href, hp, rfl⟩
  · rintro ⟨k, obj, hobj, href, hp, rfl⟩
    exact ⟨⟨k, obj, hobj, href, rfl⟩, hp⟩

theorem mem_orphan {o : OrphanFile} :
    o ∈ (reconcile T env request buckets data).orphan ↔
      ∃ k obj, lastListing data.bucketResults k = some obj ∧
        firstReference T env request buckets data.mappingResults k = none ∧
        ¬IsEmbedded data.contentResults k ∧ orphanOf k obj = o := by
  simp only [← mem_content]
  exact mem_filter_rawOrphans (· ∉ ((data.contentResults.map collectContent).getD (∅, 0)).1)

theorem mem_protected {o : OrphanFile} :
    o ∈ (reconcile T env request buckets data).protected ↔
      ∃ k obj, lastListing data.bucketResults k = some obj ∧
        firstReference T env request buckets data.mappingResults k = none ∧
        IsEmbedded data.contentResults k ∧ orphanOf k obj = o := by
  simp only [← mem_content]
  exact mem_filter_rawOrphans (· ∈ ((data.contentResults.map collectContent).getD (∅, 0)).1)

theorem firstReference_ne_none {ref : DbFileReference κ}
    (href : ref ∈ data.mappingResults.flatten)
    (hscope : inScope T env (effectiveProvider env request) buckets ref = true) :
    firstReference T env request buckets data.mappingResults (keyOf T env ref) ≠ none := by
  intro hnone
  have hno := List.find?_eq_none.mp hnone ref href
  simp [hscope] at hno

theorem orphan_path_ne {ref : DbFileReference κ} (href : ref ∈ data.mappingResults.flatten)
    (hscope : inScope T env (effectiveProvider env request) buckets ref = true) :
    ∀ o ∈ (reconcile T env request buckets data).orphan, o.path ≠ keyOf T env ref := by
  intro o ho hpath
  obtain ⟨k, obj, _, hnone, _, rfl⟩ := mem_orphan.mp ho
  obtain rfl : k = keyOf T env ref := hpath
  exact firstReference_ne_none href hscope hnone

end Result

/-! ## One row and one object -/

def photoRow (value : Str) : DbFileReference ℕ := ⟨"users".toList, "photo".toList, some 1, value⟩

/-- One user with a photo, and one listed object. -/
def photoReads (bucket key value : Str) : ScanData ℕ where
  mappingResults := [[photoRow value]]
  bucketResults := [[⟨bucket, key, 5, none, none⟩]]
  contentResults := none

def photoRequest (bucket : Str) : ReconciliationRequest where
  mappings := [⟨"users".toList, "photo".toList, none⟩]
  buckets := some [bucket]
  keyPrefix := none
  database := none
  provider := none

end StorageReconciler
