import StorageReconciler.Fetching
import StorageReconciler.Foundations.FirstOccurrences

/-!
# Checkpoints that cannot be written

An item is read and then saved, and an item that cannot be saved counts as one that
could not be read.  The lists of the run stay as they would have been exactly when
the other items of its kind say in its place what the item has to say.
-/

namespace StorageReconciler

open Strings FirstOccurrences

variable {κ : Type*}

/-! ## Saving -/

/-- The value of a key column, as the driver delivers it. -/
inductive KeyValue where
  | int (n : ℤ)
  | text (s : Str)
  | bytes (codes : List ℕ)
  | decimal (digits : ℤ) (scale : ℕ)
  | date (day : ℕ)
  deriving DecidableEq

/-- `json.dump` knows numbers and texts. -/
def jsonError : KeyValue → Option Str
  | .int _ => none
  | .text _ => none
  | .bytes _ => some "Object of type bytes is not JSON serializable".toList
  | .decimal _ _ => some "Object of type Decimal is not JSON serializable".toList
  | .date _ => some "Object of type date is not JSON serializable".toList

/-- The ids are what a reference may hold that has no JSON form. -/
def saveMappingCheckpoint (written : Except Str Unit) (refs : List (DbFileReference KeyValue)) :
    Except Str Unit :=
  match (refs.filterMap DbFileReference.id).findSome? jsonError with
  | some e => .error e
  | none => written

/-- What the checkpoint of an item holds, and how fetching and saving would end. -/
structure ItemAttempt (δ : Type*) where
  cached : Option δ
  fetched : Except Str δ
  saved : Except Str Unit

def mappingValue (a : ItemAttempt (List (DbFileReference κ))) : List (DbFileReference κ) :=
  (mappingWork a.cached a.fetched a.saved).value

def bucketValue (a : ItemAttempt (List StorageObject)) : List StorageObject :=
  (bucketWork a.cached a.fetched a.saved).value

def contentValue (a : ItemAttempt (Finset Str × ℕ)) : Finset Str × ℕ :=
  (contentWork a.cached a.fetched a.saved).value

structure RunAttempts (κ : Type*) where
  mappings : List (ItemAttempt (List (DbFileReference κ)))
  buckets : List (ItemAttempt (List StorageObject))
  content : Option (List (ItemAttempt (Finset Str × ℕ)))

def RunAttempts.scan (run : RunAttempts κ) : ScanData κ where
  mappingResults := run.mappings.map mappingValue
  bucketResults := run.buckets.map bucketValue
  contentResults := run.content.map fun items ↦ items.map contentValue

/-- An item without a checkpoint that was read, among the others of its run. -/
inductive ReadItem (κ : Type*) where
  | mapping (before : List (ItemAttempt (List (DbFileReference κ))))
      (refs : List (DbFileReference κ))
      (after : List (ItemAttempt (List (DbFileReference κ))))
      (buckets : List (ItemAttempt (List StorageObject)))
      (content : Option (List (ItemAttempt (Finset Str × ℕ))))
  | bucket (mappings : List (ItemAttempt (List (DbFileReference κ))))
      (before : List (ItemAttempt (List StorageObject))) (objs : List StorageObject)
      (after : List (ItemAttempt (List StorageObject)))
      (content : Option (List (ItemAttempt (Finset Str × ℕ))))
  | content (mappings : List (ItemAttempt (List (DbFileReference κ))))
      (buckets : List (ItemAttempt (List StorageObject)))
      (before : List (ItemAttempt (Finset Str × ℕ))) (keys : Finset Str × ℕ)
      (after : List (ItemAttempt (Finset Str × ℕ)))

/-- The run in which the saving of the item ends so. -/
def ReadItem.run (saved : Except Str Unit) : ReadItem κ → RunAttempts κ
  | .mapping before refs after buckets columns =>
      ⟨before ++ ⟨none, .ok refs, saved⟩ :: after, buckets, columns⟩
  | .bucket mappings before objs after columns =>
      ⟨mappings, before ++ ⟨none, .ok objs, saved⟩ :: after, columns⟩
  | .content mappings buckets before keys after =>
      ⟨mappings, buckets, some (before ++ ⟨none, .ok keys, saved⟩ :: after)⟩

structure SameLists (r r' : ReconciliationResult κ) : Prop where
  matched : r.matched = r'.matched
  missing : r.missing = r'.missing
  orphan : r.orphan = r'.orphan
  «protected» : r.protected = r'.protected

/-! ## What an item has to say -/

section Say

variable (T : Tables) (env : Env) (request : ReconciliationRequest) (buckets : List Str)

/-- The references in scope, under the keys they name. -/
def namedBy (refs : List (DbFileReference κ)) : List (Str × DbFileReference κ) :=
  (refs.filter (inScope T env (effectiveProvider env request) buckets)).map fun ref ↦
    (keyOf T env ref, ref)

def isListed (bucketResults : List (List StorageObject)) (k : Str) : Bool :=
  bucketResults.flatten.any fun obj ↦ decide (obj.key = k)

def isEmbedded (contentResults : Option (List (Finset Str × ℕ))) (k : Str) : Bool :=
  decide (k ∈ ((contentResults.map collectContent).getD (∅, 0)).1)

/-- The references to keys that are listed, or to those that are not. -/
def namedAs (bucketResults : List (List StorageObject)) (found : Bool)
    (refs : List (DbFileReference κ)) : List (Str × DbFileReference κ) :=
  (namedBy T env request buckets refs).filter fun e ↦ isListed bucketResults e.1 == found

/-- The key belongs to an orphan, or to a protected object. -/
def isUnreferenced (mappingResults : List (List (DbFileReference κ)))
    (contentResults : Option (List (Finset Str × ℕ))) (embedded : Bool) (k : Str) : Bool :=
  (firstReference T env request buckets mappingResults k).isNone &&
    isEmbedded contentResults k == embedded

/-- The other items of its kind say what the item has to say. -/
def ReadItem.IsSpare : ReadItem κ → Prop
  | .mapping before refs after bucketItems _ =>
      ∀ found, Anticipates Prod.fst
        (namedAs T env request buckets (bucketItems.map bucketValue) found
          (before.map mappingValue).flatten)
        (namedAs T env request buckets (bucketItems.map bucketValue) found refs)
        (namedAs T env request buckets (bucketItems.map bucketValue) found
          (after.map mappingValue).flatten)
  | .bucket mappings before objs after columns =>
      (∀ obj ∈ objs,
        (lastListing (before.map bucketValue ++ after.map bucketValue) obj.key).map
            (orphanOf obj.key) =
          (lastListing (before.map bucketValue ++ objs :: after.map bucketValue) obj.key).map
            (orphanOf obj.key)) ∧
      ∀ embedded,
        let keys (listed : List StorageObject) : List Str :=
          (listed.map StorageObject.key).filter
            (isUnreferenced T env request buckets (mappings.map mappingValue)
              (columns.map fun items ↦ items.map contentValue) embedded)
        Anticipates id (keys (before.map bucketValue).flatten) (keys objs)
          (keys (after.map bucketValue).flatten)
  | .content mappings bucketItems before keys after =>
      ∀ k ∈ keys.1, isListed (bucketItems.map bucketValue) k = true →
        firstReference T env request buckets (mappings.map mappingValue) k = none →
        ∃ other ∈ before ++ after, k ∈ (contentValue other).1

end Say

/-! ## The lists of a run -/

section Lists

variable {T : Tables} {env : Env} {request : ReconciliationRequest} {buckets : List Str}

theorem dbFiles_foldl_indexReference (effective : Option Str) (refs : List (DbFileReference κ))
    (index : ReferenceIndex κ) :
    (refs.foldl (indexReference T env effective buckets) index).dbFiles =
      ((refs.filter (inScope T env effective buckets)).map fun ref ↦ (keyOf T env ref, ref)).foldl
        (fun d e ↦ d.setdefault e.1 e.2) index.dbFiles := by
  induction refs generalizing index with
  | nil => rfl
  | cons ref refs ih =>
      rw [List.foldl_cons, ih, dbFiles_indexReference]
      cases hscope : inScope T env effective buckets ref with
      | false => rw [List.filter_cons_of_neg (by simp [hscope])]; rfl
      | true => rw [List.filter_cons_of_pos hscope]; rfl

theorem entries_dbFiles (mappingResults : List (List (DbFileReference κ))) :
    (indexReferences T env (effectiveProvider env request) buckets
      mappingResults).dbFiles.entries =
      firsts Prod.fst [] (namedBy T env request buckets mappingResults.flatten) := by
  rw [indexReferences, dbFiles_foldl_indexReference, OrderedDict.entries_foldl_setdefault]
  rfl

theorem keys_indexObjects (bucketResults : List (List StorageObject)) :
    (indexObjects bucketResults).entries.map Prod.fst =
      firsts id [] (bucketResults.flatten.map StorageObject.key) := by
  have hpairs : indexObjects bucketResults =
      (bucketResults.flatten.map fun obj ↦ (obj.key, obj)).foldl
        (fun d e ↦ d.insert e.1 e.2) OrderedDict.empty := by
    rw [indexObjects, List.foldl_map]
  rw [hpairs, OrderedDict.keys_foldl_insert]
  change [] ++ (firsts (id ∘ Prod.fst) [] _).map Prod.fst = _
  rw [List.nil_append, map_firsts, List.map_map]
  rfl

theorem contains_indexObjects (bucketResults : List (List StorageObject)) (k : Str) :
    (indexObjects bucketResults).contains k = isListed bucketResults k := by
  rw [Bool.eq_iff_iff, ← not_iff_not, Bool.not_eq_true, Bool.not_eq_true]
  calc
    (indexObjects bucketResults).contains k = false ↔
        (indexObjects bucketResults).get? k = none := OrderedDict.contains_eq_false_iff
    _ ↔ isListed bucketResults k = false := by
      rw [get?_indexObjects_eq_none_iff]
      simp [isListed]

theorem contains_dbFiles (mappingResults : List (List (DbFileReference κ))) (k : Str) :
    (indexReferences T env (effectiveProvider env request) buckets
      mappingResults).dbFiles.contains k =
      (firstReference T env request buckets mappingResults k).isSome := by
  rw [OrderedDict.contains, get?_dbFiles]
  rfl

/-- The reference and the key of a classified file. -/
def matchedEntry (m : MatchedFile κ) : Str × DbFileReference κ :=
  (m.path, ⟨m.table, m.column, m.id, m.rawValue.getD []⟩)

def missingEntry (m : MissingFile κ) : Str × DbFileReference κ :=
  (m.path, ⟨m.table, m.column, m.id, m.rawValue.getD []⟩)

theorem map_matchedEntry (dbFiles : OrderedDict Str (DbFileReference κ))
    (storageObjects : OrderedDict Str StorageObject) :
    (matchedFiles dbFiles storageObjects).map matchedEntry =
      dbFiles.entries.filter fun e ↦ storageObjects.contains e.1 := by
  rw [matchedFiles, List.map_filterMap, ← List.filterMap_eq_filter]
  apply List.filterMap_congr
  intro e _
  cases hget : storageObjects.get? e.1 with
  | none => simp [OrderedDict.contains, hget, Option.guard]
  | some obj => simp [OrderedDict.contains, hget, Option.guard, matchedEntry, matchedOf]

theorem matchedFiles_eq_filterMap_filter (dbFiles : OrderedDict Str (DbFileReference κ))
    (storageObjects : OrderedDict Str StorageObject) :
    matchedFiles dbFiles storageObjects =
      (dbFiles.entries.filter fun e ↦ storageObjects.contains e.1).filterMap fun e ↦
        (storageObjects.get? e.1).map (matchedOf e.1 e.2) := by
  rw [matchedFiles, List.filterMap_filter]
  apply List.filterMap_congr
  intro e _
  cases hget : storageObjects.get? e.1 with
  | none => simp [OrderedDict.contains, hget]
  | some obj => simp [OrderedDict.contains, hget]

theorem map_orphanOf_filter (storageObjects : OrderedDict Str StorageObject) (p : Str → Bool) :
    (storageObjects.entries.filter fun e ↦ p e.1).map (fun e ↦ orphanOf e.1 e.2) =
      ((storageObjects.entries.map Prod.fst).filter p).filterMap fun k ↦
        (storageObjects.get? k).map (orphanOf k) := by
  rw [List.filter_map, List.filterMap_map, ← List.filterMap_eq_map]
  apply List.filterMap_congr
  intro e he
  have hget : storageObjects.get? e.1 = some e.2 :=
    OrderedDict.get?_eq_some_iff.mpr (List.mem_of_mem_filter he)
  simp [hget]

theorem filter_firsts_id (p : Str → Bool) (keys : List Str) :
    (firsts id [] keys).filter p = firsts id [] (keys.filter p) :=
  firsts_filter p [] keys

/-- The protected objects of a run, or its orphans. -/
def unreferenced (T : Tables) (env : Env) (request : ReconciliationRequest) (buckets : List Str)
    (data : ScanData κ) (embedded : Bool) : List OrphanFile :=
  ((firsts id [] (data.bucketResults.flatten.map StorageObject.key)).filter
    (isUnreferenced T env request buckets data.mappingResults data.contentResults
      embedded)).filterMap fun k ↦ (lastListing data.bucketResults k).map (orphanOf k)

theorem filter_rawOrphans (data : ScanData κ) (embedded : Bool) :
    (rawOrphans (indexReferences T env (effectiveProvider env request) buckets
        data.mappingResults).dbFiles (indexObjects data.bucketResults)).filter
          (fun o ↦ isEmbedded data.contentResults o.path == embedded) =
      unreferenced T env request buckets data embedded := by
  have hlast : ∀ k, (indexObjects data.bucketResults).get? k = lastListing data.bucketResults k :=
    get?_indexObjects data.bucketResults
  have hnone : ∀ k, (!(indexReferences T env (effectiveProvider env request) buckets
      data.mappingResults).dbFiles.contains k) =
      (firstReference T env request buckets data.mappingResults k).isNone := by
    intro k
    rw [contains_dbFiles, Option.not_isSome]
  rw [rawOrphans, List.filter_map, List.filter_filter]
  have hpart := map_orphanOf_filter (indexObjects data.bucketResults)
    (isUnreferenced T env request buckets data.mappingResults data.contentResults embedded)
  simp only [hlast, keys_indexObjects] at hpart
  rw [unreferenced, ← hpart]
  refine congrArg _ (List.filter_congr fun e _ ↦ ?_)
  rw [isUnreferenced, hnone, Function.comp, orphanOf, Bool.and_comm]

theorem reconcile_orphan (data : ScanData κ) :
    (reconcile T env request buckets data).orphan =
      unreferenced T env request buckets data false := by
  rw [← filter_rawOrphans]
  apply List.filter_congr
  intro o _
  simp [isEmbedded]

theorem reconcile_protected (data : ScanData κ) :
    (reconcile T env request buckets data).protected =
      unreferenced T env request buckets data true := by
  rw [← filter_rawOrphans]
  apply List.filter_congr
  intro o _
  simp [isEmbedded]

theorem SameLists.unreferenced_eq {data data' : ScanData κ}
    (h : SameLists (reconcile T env request buckets data)
      (reconcile T env request buckets data')) (embedded : Bool) :
    unreferenced T env request buckets data embedded =
      unreferenced T env request buckets data' embedded := by
  cases embedded with
  | false => rw [← reconcile_orphan, ← reconcile_orphan, h.orphan]
  | true => rw [← reconcile_protected, ← reconcile_protected, h.protected]

theorem map_path_unreferenced (data : ScanData κ) (embedded : Bool) :
    (unreferenced T env request buckets data embedded).map OrphanFile.path =
      firsts id [] ((data.bucketResults.flatten.map StorageObject.key).filter
        (isUnreferenced T env request buckets data.mappingResults data.contentResults
          embedded)) := by
  rw [unreferenced, List.map_filterMap, ← filter_firsts_id]
  refine (List.filterMap_congr fun k hk ↦ ?_).trans List.filterMap_some
  obtain ⟨obj, hobj, rfl⟩ := List.mem_map.mp (mem_firsts_id.mp (List.mem_of_mem_filter hk)).1
  have hsome : lastListing data.bucketResults obj.key ≠ none := by
    intro hno
    rw [lastListing, List.find?_eq_none] at hno
    exact hno obj (List.mem_reverse.mpr hobj) (by simp)
  obtain ⟨last, hlast⟩ := Option.ne_none_iff_exists'.mp hsome
  simp [hlast, orphanOf]

theorem filter_entries_dbFiles (mappingResults : List (List (DbFileReference κ)))
    (bucketResults : List (List StorageObject)) (found : Bool) :
    ((indexReferences T env (effectiveProvider env request) buckets
      mappingResults).dbFiles.entries.filter fun e ↦ isListed bucketResults e.1 == found) =
      firsts Prod.fst [] (namedAs T env request buckets bucketResults found
        mappingResults.flatten) := by
  rw [entries_dbFiles]
  exact firsts_filter (fun k ↦ isListed bucketResults k == found) [] _

theorem map_matchedEntry_reconcile (data : ScanData κ) :
    (reconcile T env request buckets data).matched.map matchedEntry =
      firsts Prod.fst [] (namedAs T env request buckets data.bucketResults true
        data.mappingResults.flatten) := by
  rw [← filter_entries_dbFiles]
  refine (map_matchedEntry _ _).trans (List.filter_congr fun e _ ↦ ?_)
  rw [contains_indexObjects, beq_true]

theorem map_missingEntry_reconcile (data : ScanData κ) :
    (reconcile T env request buckets data).missing.map missingEntry =
      firsts Prod.fst [] (namedAs T env request buckets data.bucketResults false
        data.mappingResults.flatten) := by
  rw [← filter_entries_dbFiles]
  simp only [reconcile, List.map_map]
  have hentry : ∀ entries : List (Str × DbFileReference κ),
      entries.map (missingEntry ∘ fun e ↦ missingFile (singleBucketHint buckets) (bucketByMapping
        (matchedFiles (indexReferences T env (effectiveProvider env request) buckets
          data.mappingResults).dbFiles (indexObjects data.bucketResults))) e.1 e.2) = entries :=
    fun entries ↦ List.map_id entries
  rw [hentry, unmatchedFiles]
  apply List.filter_congr
  intro e _
  rw [contains_indexObjects, beq_false]

theorem isSome_firstReference_iff {bucketResults : List (List StorageObject)} {k : Str}
    (hk : isListed bucketResults k = true) (results : List (List (DbFileReference κ))) :
    (firstReference T env request buckets results k).isSome = true ↔
      k ∈ (firsts Prod.fst [] (namedAs T env request buckets bucketResults true
        results.flatten)).map Prod.fst := by
  rw [← contains_dbFiles, ← filter_entries_dbFiles, ← Bool.not_eq_false,
    OrderedDict.contains_eq_false_iff, OrderedDict.get?_eq_none_iff, not_not]
  simp only [List.mem_map, List.mem_filter]
  constructor
  · rintro ⟨e, he, rfl⟩
    exact ⟨e, ⟨he, by simp [hk]⟩, rfl⟩
  · rintro ⟨e, ⟨he, _⟩, rfl⟩
    exact ⟨e, he, rfl⟩

/-- Mappings that name the same keys first, in the same order. -/
theorem sameLists_mappings_iff {mappingResults mappingResults' : List (List (DbFileReference κ))}
    {bucketResults : List (List StorageObject)}
    {contentResults : Option (List (Finset Str × ℕ))} :
    SameLists (reconcile T env request buckets ⟨mappingResults, bucketResults, contentResults⟩)
        (reconcile T env request buckets ⟨mappingResults', bucketResults, contentResults⟩) ↔
      ∀ found, firsts Prod.fst [] (namedAs T env request buckets bucketResults found
          mappingResults.flatten) =
        firsts Prod.fst [] (namedAs T env request buckets bucketResults found
          mappingResults'.flatten) := by
  constructor
  · intro h found
    cases found with
    | true =>
        have hmatched := congrArg (List.map matchedEntry) h.matched
        rwa [map_matchedEntry_reconcile, map_matchedEntry_reconcile] at hmatched
    | false =>
        have hmissing := congrArg (List.map missingEntry) h.missing
        rwa [map_missingEntry_reconcile, map_missingEntry_reconcile] at hmissing
  · intro h
    have hentries : ∀ found, _ = _ := fun found ↦
      (filter_entries_dbFiles mappingResults bucketResults found).trans
        ((h found).trans (filter_entries_dbFiles mappingResults' bucketResults found).symm)
    have hcontains : ∀ e : Str × DbFileReference κ, (indexObjects bucketResults).contains e.1 =
        (isListed bucketResults e.1 == true) := fun e ↦ by rw [contains_indexObjects, beq_true]
    have hnot : ∀ e : Str × DbFileReference κ, (!(indexObjects bucketResults).contains e.1) =
        (isListed bucketResults e.1 == false) := fun e ↦ by rw [contains_indexObjects, beq_false]
    have hmatched : (reconcile T env request buckets
        ⟨mappingResults, bucketResults, contentResults⟩).matched =
        (reconcile T env request buckets
          ⟨mappingResults', bucketResults, contentResults⟩).matched := by
      simp only [reconcile, matchedFiles_eq_filterMap_filter, hcontains, hentries true]
    have hfirst : ∀ k, isListed bucketResults k = true →
        (firstReference T env request buckets mappingResults k).isNone =
          (firstReference T env request buckets mappingResults' k).isNone := by
      intro k hk
      rw [← Option.not_isSome, ← Option.not_isSome]
      refine congrArg _ (Bool.eq_iff_iff.mpr ?_)
      rw [isSome_firstReference_iff hk, isSome_firstReference_iff hk, h true]
    have hunreferenced : ∀ embedded,
        unreferenced T env request buckets ⟨mappingResults, bucketResults, contentResults⟩
            embedded =
          unreferenced T env request buckets ⟨mappingResults', bucketResults, contentResults⟩
            embedded := by
      intro embedded
      refine congrArg _ (List.filter_congr fun k hk ↦ ?_)
      have hlisted : isListed bucketResults k = true := by
        obtain ⟨obj, hobj, rfl⟩ := List.mem_map.mp (mem_firsts_id.mp hk).1
        exact List.any_eq_true.mpr ⟨obj, hobj, by simp⟩
      rw [isUnreferenced, isUnreferenced, hfirst k hlisted]
    refine ⟨hmatched, ?_, ?_, ?_⟩
    · simp only [reconcile] at hmatched ⊢
      simp only [hmatched, unmatchedFiles, hnot, hentries false]
    · rw [reconcile_orphan, reconcile_orphan, hunreferenced]
    · rw [reconcile_protected, reconcile_protected, hunreferenced]

theorem SameLists.symm {r r' : ReconciliationResult κ} (h : SameLists r r') : SameLists r' r :=
  ⟨h.matched.symm, h.missing.symm, h.orphan.symm, h.protected.symm⟩

theorem SameLists.lastListing_eq {data data' : ScanData κ}
    (h : SameLists (reconcile T env request buckets data) (reconcile T env request buckets data'))
    {k : Str} {obj : StorageObject} (hobj : lastListing data.bucketResults k = some obj) :
    (lastListing data'.bucketResults k).map (orphanOf k) = some (orphanOf k obj) := by
  cases href : firstReference T env request buckets data.mappingResults k with
  | some ref =>
      have hmem := mem_matched.mpr ⟨k, ref, obj, href, hobj, rfl⟩
      rw [h.matched] at hmem
      obtain ⟨k', ref', obj', _, hobj', heq⟩ := mem_matched.mp hmem
      obtain rfl : k' = k := congrArg MatchedFile.path heq
      have hbucket : obj'.bucket = obj.bucket := congrArg MatchedFile.bucket heq
      have hsize : obj'.size = obj.size := congrArg MatchedFile.size heq
      have hmodified : obj'.lastModified = obj.lastModified :=
        congrArg MatchedFile.lastModified heq
      rw [hobj', Option.map_some, orphanOf, orphanOf, hbucket, hsize, hmodified]
  | none =>
      have hsame : ∀ o, o = orphanOf k obj → (∃ k' obj',
          lastListing data'.bucketResults k' = some obj' ∧ orphanOf k' obj' = o) →
          (lastListing data'.bucketResults k).map (orphanOf k) = some (orphanOf k obj) := by
        rintro o rfl ⟨k', obj', hobj', heq⟩
        obtain rfl : k' = k := congrArg OrphanFile.path heq
        rw [hobj', Option.map_some, heq]
      by_cases hcontent : IsEmbedded data.contentResults k
      · have hmem := mem_protected.mpr ⟨k, obj, hobj, href, hcontent, rfl⟩
        rw [h.protected] at hmem
        obtain ⟨k', obj', hobj', _, _, heq⟩ := mem_protected.mp hmem
        exact hsame _ rfl ⟨k', obj', hobj', heq⟩
      · have hmem := mem_orphan.mpr ⟨k, obj, hobj, href, hcontent, rfl⟩
        rw [h.orphan] at hmem
        obtain ⟨k', obj', hobj', _, _, heq⟩ := mem_orphan.mp hmem
        exact hsame _ rfl ⟨k', obj', hobj', heq⟩

theorem map_matchedOf_congr {k : Str} {listed listed' : Option StorageObject}
    (ref : DbFileReference κ) (h : listed.map (orphanOf k) = listed'.map (orphanOf k)) :
    listed.map (matchedOf k ref) = listed'.map (matchedOf k ref) := by
  have hreport : matchedOf k ref = (fun o : OrphanFile ↦ (⟨k, o.bucket, o.size, ref.table,
      ref.column, ref.id, o.lastModified, some ref.value⟩ : MatchedFile κ)) ∘ orphanOf k := rfl
  rw [hreport, ← Option.map_map, h, Option.map_map]

/-- Listings that report the same of every key, and list the keys of each class first
in the same order. -/
theorem sameLists_buckets_iff {mappingResults : List (List (DbFileReference κ))}
    {bucketResults bucketResults' : List (List StorageObject)}
    {contentResults : Option (List (Finset Str × ℕ))} :
    SameLists (reconcile T env request buckets ⟨mappingResults, bucketResults, contentResults⟩)
        (reconcile T env request buckets ⟨mappingResults, bucketResults', contentResults⟩) ↔
      (∀ k, (lastListing bucketResults k).map (orphanOf k) =
        (lastListing bucketResults' k).map (orphanOf k)) ∧
      ∀ embedded, firsts id [] ((bucketResults.flatten.map StorageObject.key).filter
          (isUnreferenced T env request buckets mappingResults contentResults embedded)) =
        firsts id [] ((bucketResults'.flatten.map StorageObject.key).filter
          (isUnreferenced T env request buckets mappingResults contentResults embedded)) := by
  constructor
  · intro h
    refine ⟨fun k ↦ ?_, fun embedded ↦ ?_⟩
    · cases hobj : lastListing bucketResults k with
      | some obj => exact (h.lastListing_eq hobj).symm
      | none =>
          cases hobj' : lastListing bucketResults' k with
          | none => rfl
          | some obj =>
              have hsome := h.symm.lastListing_eq hobj'
              rw [hobj] at hsome
              exact hsome
    · have hpaths := congrArg (List.map OrphanFile.path) (h.unreferenced_eq embedded)
      rwa [map_path_unreferenced, map_path_unreferenced] at hpaths
  · rintro ⟨hlast, hkeys⟩
    have hget : ∀ (results : List (List StorageObject)) (k : Str),
        (indexObjects results).get? k = lastListing results k := get?_indexObjects
    have hcontains : ∀ k, (indexObjects bucketResults).contains k =
        (indexObjects bucketResults').contains k := by
      intro k
      have hsome := congrArg Option.isSome (hlast k)
      rwa [Option.isSome_map, Option.isSome_map, ← hget, ← hget] at hsome
    have hmatch : ∀ (k : Str) (ref : DbFileReference κ),
        ((indexObjects bucketResults).get? k).map (matchedOf k ref) =
          ((indexObjects bucketResults').get? k).map (matchedOf k ref) := by
      intro k ref
      rw [hget, hget]
      exact map_matchedOf_congr ref (hlast k)
    have hunreferenced : ∀ embedded,
        unreferenced T env request buckets ⟨mappingResults, bucketResults, contentResults⟩
            embedded =
          unreferenced T env request buckets ⟨mappingResults, bucketResults', contentResults⟩
            embedded := by
      intro embedded
      rw [unreferenced, unreferenced, filter_firsts_id, filter_firsts_id, hkeys embedded]
      exact List.filterMap_congr fun k _ ↦ hlast k
    refine ⟨?_, ?_, ?_, ?_⟩
    · simp only [reconcile, matchedFiles, hmatch]
    · simp only [reconcile, matchedFiles, hmatch, unmatchedFiles, hcontains]
    · rw [reconcile_orphan, reconcile_orphan, hunreferenced]
    · rw [reconcile_protected, reconcile_protected, hunreferenced]

theorem isEmbedded_eq_true_iff {contentResults : Option (List (Finset Str × ℕ))} {k : Str} :
    isEmbedded contentResults k = true ↔ IsEmbedded contentResults k := by
  have hcontent : _ ↔ IsEmbedded (ScanData.mk (κ := ℕ) [] [] contentResults).contentResults k :=
    mem_content
  rw [isEmbedded, decide_eq_true_eq]
  exact hcontent

theorem orphanOf_mem_protected_iff (data : ScanData κ) {k : Str} {obj : StorageObject}
    (hobj : lastListing data.bucketResults k = some obj)
    (href : firstReference T env request buckets data.mappingResults k = none) :
    orphanOf k obj ∈ (reconcile T env request buckets data).protected ↔
      IsEmbedded data.contentResults k := by
  rw [mem_protected]
  constructor
  · rintro ⟨k', obj', _, _, hcontent, heq⟩
    obtain rfl : k' = k := congrArg OrphanFile.path heq
    exact hcontent
  · exact fun hcontent ↦ ⟨k, obj, hobj, href, hcontent, rfl⟩

theorem exists_lastListing {bucketResults : List (List StorageObject)} {k : Str}
    (h : isListed bucketResults k = true) : ∃ obj, lastListing bucketResults k = some obj := by
  obtain ⟨obj, hobj, hkey⟩ := List.any_eq_true.mp h
  rw [← Option.ne_none_iff_exists']
  intro hno
  rw [lastListing, List.find?_eq_none] at hno
  exact hno obj (List.mem_reverse.mpr hobj) hkey

theorem unreferenced_eq_of_isEmbedded_iff {mappingResults : List (List (DbFileReference κ))}
    {bucketResults : List (List StorageObject)}
    {contentResults contentResults' : Option (List (Finset Str × ℕ))}
    (h : ∀ k, isListed bucketResults k = true →
      firstReference T env request buckets mappingResults k = none →
      (IsEmbedded contentResults k ↔ IsEmbedded contentResults' k)) (embedded : Bool) :
    unreferenced T env request buckets ⟨mappingResults, bucketResults, contentResults⟩ embedded =
      unreferenced T env request buckets ⟨mappingResults, bucketResults, contentResults'⟩
        embedded := by
  refine congrArg _ (List.filter_congr fun k hk ↦ ?_)
  obtain ⟨obj, hobj, rfl⟩ := List.mem_map.mp (mem_firsts_id.mp hk).1
  rw [isUnreferenced, isUnreferenced]
  cases href : firstReference T env request buckets mappingResults obj.key with
  | some ref => rfl
  | none =>
      have hsame := h obj.key (List.any_eq_true.mpr ⟨obj, hobj, by simp⟩) href
      rw [← isEmbedded_eq_true_iff, ← isEmbedded_eq_true_iff, ← Bool.eq_iff_iff] at hsame
      rw [hsame]

/-- Rich-text columns that embed the same of the unreferenced keys. -/
theorem sameLists_content_iff {mappingResults : List (List (DbFileReference κ))}
    {bucketResults : List (List StorageObject)}
    {contentResults contentResults' : Option (List (Finset Str × ℕ))} :
    SameLists (reconcile T env request buckets ⟨mappingResults, bucketResults, contentResults⟩)
        (reconcile T env request buckets ⟨mappingResults, bucketResults, contentResults'⟩) ↔
      ∀ k, isListed bucketResults k = true →
        firstReference T env request buckets mappingResults k = none →
        (IsEmbedded contentResults k ↔ IsEmbedded contentResults' k) := by
  constructor
  · intro h k hk href
    obtain ⟨obj, hobj⟩ := exists_lastListing hk
    have hprotected := orphanOf_mem_protected_iff ⟨mappingResults, bucketResults, contentResults⟩
      hobj href
    have hprotected' := orphanOf_mem_protected_iff ⟨mappingResults, bucketResults, contentResults'⟩
      hobj href
    rw [← hprotected, ← hprotected', h.protected]
  · intro h
    have hunreferenced := unreferenced_eq_of_isEmbedded_iff h
    refine ⟨rfl, rfl, ?_, ?_⟩
    · rw [reconcile_orphan, reconcile_orphan, hunreferenced]
    · rw [reconcile_protected, reconcile_protected, hunreferenced]

/-! ## One item that is not saved -/

theorem lastListing_of_not_listed {before after : List (List StorageObject)}
    {objs : List StorageObject} {k : Str} (h : ∀ obj ∈ objs, obj.key ≠ k) :
    lastListing (before ++ objs :: after) k = lastListing (before ++ after) k := by
  have hnone : objs.reverse.find? (fun obj ↦ decide (obj.key = k)) = none := by
    rw [List.find?_eq_none]
    intro obj hobj
    simpa using h obj (List.mem_reverse.mp hobj)
  simp only [lastListing, List.flatten_append, List.flatten_cons, List.reverse_append,
    List.find?_append, hnone, Option.or_none]

theorem namedAs_append (bucketResults : List (List StorageObject)) (found : Bool)
    (refs refs' : List (DbFileReference κ)) :
    namedAs T env request buckets bucketResults found (refs ++ refs') =
      namedAs T env request buckets bucketResults found refs ++
        namedAs T env request buckets bucketResults found refs' := by
  have hnamed : namedBy T env request buckets (refs ++ refs') =
      namedBy T env request buckets refs ++ namedBy T env request buckets refs' := by
    rw [namedBy, List.filter_append, List.map_append]
    rfl
  rw [namedAs, hnamed, List.filter_append]
  rfl

/-- An item that is read and cannot be saved leaves the lists as they would be had it
been saved exactly when the other items of its kind say what it has to say. -/
theorem unsaved_item_kept_iff (item : ReadItem κ) (e : Str) :
    SameLists (reconcile T env request buckets (item.run (.error e)).scan)
        (reconcile T env request buckets (item.run (.ok ())).scan) ↔
      item.IsSpare T env request buckets := by
  cases item with
  | mapping before refs after bucketItems columns =>
      have hlost : mappingValue ⟨none, .ok refs, .error e⟩ = [] := rfl
      have hkept : mappingValue ⟨none, .ok refs, .ok ()⟩ = refs := rfl
      simp only [ReadItem.run, RunAttempts.scan, List.map_append, List.map_cons, hlost, hkept]
      rw [sameLists_mappings_iff]
      apply forall_congr'
      intro found
      rw [eq_comm, ← firsts_eq_iff_anticipates]
      simp only [List.flatten_append, List.flatten_cons, List.nil_append, namedAs_append,
        List.append_assoc]
  | bucket mappings before objs after columns =>
      have hlost : bucketValue ⟨none, .ok objs, .error e⟩ = [] := rfl
      have hkept : bucketValue ⟨none, .ok objs, .ok ()⟩ = objs := rfl
      simp only [ReadItem.run, RunAttempts.scan, List.map_append, List.map_cons, hlost, hkept]
      rw [sameLists_buckets_iff]
      refine and_congr ?_ (forall_congr' fun embedded ↦ ?_)
      · have hempty : ∀ k, lastListing (before.map bucketValue ++ [] :: after.map bucketValue) k =
            lastListing (before.map bucketValue ++ after.map bucketValue) k := fun k ↦
          lastListing_of_not_listed (by simp)
        simp only [hempty]
        constructor
        · exact fun h obj _ ↦ h obj.key
        · intro h k
          by_cases hk : ∃ obj ∈ objs, obj.key = k
          · obtain ⟨obj, hobj, rfl⟩ := hk
            exact h obj hobj
          · rw [lastListing_of_not_listed fun obj hobj heq ↦ hk ⟨obj, hobj, heq⟩]
      · rw [eq_comm, ← firsts_eq_iff_anticipates]
        simp only [List.flatten_append, List.flatten_cons, List.nil_append, List.map_append,
          List.filter_append, List.append_assoc]
  | content mappings bucketItems before keys after =>
      have hlost : contentValue ⟨none, .ok keys, .error e⟩ = (∅, 0) := rfl
      have hkept : contentValue ⟨none, .ok keys, .ok ()⟩ = keys := rfl
      simp only [ReadItem.run, RunAttempts.scan, Option.map_some, List.map_append, List.map_cons,
        hlost, hkept]
      rw [sameLists_content_iff]
      have hother : ∀ k, (∃ r ∈ before.map contentValue ++ after.map contentValue, k ∈ r.1) ↔
          ∃ other ∈ before ++ after, k ∈ (contentValue other).1 := by
        intro k
        rw [← List.map_append]
        simp only [List.mem_map, exists_exists_and_eq_and]
      have hembedded : ∀ k (r : Finset Str × ℕ),
          IsEmbedded (some (before.map contentValue ++ r :: after.map contentValue)) k ↔
            k ∈ r.1 ∨ ∃ other ∈ before ++ after, k ∈ (contentValue other).1 := by
        intro k r
        rw [← hother k]
        simp only [IsEmbedded, Option.mem_def, Option.some.injEq, exists_eq_left', List.mem_append,
          List.mem_cons, or_left_comm (b := _ = r), or_and_right, exists_or, exists_eq_left]
      simp only [hembedded, Finset.notMem_empty, false_or, iff_or_self, ReadItem.IsSpare]
      exact ⟨fun h k hk hl hf ↦ h k hl hf hk, fun h k hl hf hk ↦ h k hk hl hf⟩

end Lists

/-- A photo of a user whose id is a decimal. -/
def decimalPhoto : DbFileReference KeyValue :=
  ⟨"users".toList, "photo".toList, some (.decimal 15 1), "a.png".toList⟩

/-- The photo is read and found in the bucket, and then lost since its id has no JSON form. -/
theorem decimal_id_thrown_away :
    ¬∀ (T : Tables) (env : Env) (request : ReconciliationRequest) (buckets : List Str)
      (before after : List (ItemAttempt (List (DbFileReference KeyValue))))
      (refs : List (DbFileReference KeyValue)) (written : Except Str Unit)
      (bucketItems : List (ItemAttempt (List StorageObject)))
      (columns : Option (List (ItemAttempt (Finset Str × ℕ)))),
      let item := ReadItem.mapping before refs after bucketItems columns
      SameLists
        (reconcile T env request buckets (item.run (saveMappingCheckpoint written refs)).scan)
        (reconcile T env request buckets (item.run (.ok ())).scan) := by
  intro h
  have hsame := h Tables.ascii sgp1Env (photoRequest "scola".toList) ["scola".toList] [] []
    [decimalPhoto] (.ok ())
    [⟨none, .ok [⟨"scola".toList, "a.png".toList, 5, none, none⟩], .ok ()⟩] none
  exact absurd hsame.orphan (by decide)

end StorageReconciler
