import StorageReconciler.FileReferences
import StorageReconciler.ReconciliationRun

/-!
# Resuming a run

While database and storage stay as they are, a checkpoint of an item holds what
fetching the item would read.  A resumed run then classifies the same data as a
run from the beginning, as long as the files of its items tell the items apart
and the embedded keys were extracted for the same buckets.
-/

namespace StorageReconciler

open Strings ResumablePool

theorem exists_mapping_of_key {ν : Type} [LinearOrder ν]
    {request request' : ReconciliationRequest}
    (hkey : checkpointKeyFor request = checkpointKeyFor request') {m : TableColumnMapping}
    (hm : m ∈ request.mappings) {text : ν → Str} {snapshots : ℕ → Database ν}
    {order : TieOrders ν} {database : Option Str} {batch : ℕ} {refs : List (DbFileReference ν)}
    (hread : IsRead text snapshots order database m batch refs) :
    ∃ m' ∈ request'.mappings, mappingKey m' = mappingKey m ∧
      IsRead text snapshots order database m' batch refs := by
  have hmem : mappingId m ∈ (checkpointKeyFor request).mappings :=
    mem_sorted.mpr (List.mem_map_of_mem hm)
  rw [hkey] at hmem
  obtain ⟨m', hm', hid⟩ := List.mem_map.mp (mem_sorted.mp hmem)
  obtain ⟨htable, hcolumn, hidColumn⟩ := eq_of_mappingId_eq hread.valid hid
  refine ⟨m', hm', ?_, hread.congr htable hcolumn hidColumn⟩
  rw [mappingKey, mappingKey, htable, hcolumn]

/-! ## What there is to read -/

def batchSize : ℕ := 5000

def contentBatchSize : ℕ := 500

/-- The keys embedded in the values of a column, and the number of its rows. -/
def collectContentKeys {κ : Type*} (T : Tables) (env : Env) (buckets : Finset Str)
    (refs : List (DbFileReference κ)) : Finset Str × ℕ :=
  refs.foldl (fun acc ref ↦ (acc.1 ∪ extractEmbeddedKeys T env ref.value buckets, acc.2 + 1))
    (∅, 0)

/-- Databases and buckets that do not change.  A bucket that cannot be listed has
no listing. -/
structure Contents (ν : Type) [LinearOrder ν] where
  server : Option Str → Database ν
  order : TieOrders ν
  text : ν → Str
  bucketNames : Option Str → List Str
  listing : Str → Option Str → Option Str → Option (List StorageObject)

namespace Contents

variable {ν : Type} [LinearOrder ν] (contents : Contents ν)

def MappingRead (database : Option Str) (mapping : TableColumnMapping)
    (refs : List (DbFileReference ν)) : Prop :=
  IsRead contents.text (fun _ ↦ contents.server database) contents.order database mapping batchSize
    refs

def ContentRead (T : Tables) (env : Env) (database : Option Str) (buckets : Finset Str)
    (mapping : TableColumnMapping) (keys : Finset Str × ℕ) : Prop :=
  ∃ refs, IsRead contents.text (fun _ ↦ contents.server database) contents.order database mapping
    contentBatchSize refs ∧ keys = collectContentKeys T env buckets refs

/-- The buckets of the request, or all there are. -/
def scannedBuckets (request : ReconciliationRequest) : List Str :=
  request.buckets.getD (contents.bucketNames request.provider)

/-- Whatever is fetched is what there is to read; any fetch may fail. -/
structure Fetched (T : Tables) (env : Env) (input : RunInput) (outcomes : ItemOutcomes ν) :
    Prop where
  mappings : List.Forall₂ (fun m r ↦ ∀ refs, r = .ok refs →
    contents.MappingRead input.request.database m refs) input.request.mappings outcomes.mappings
  buckets : List.Forall₂ (fun b r ↦ ∀ objs, r = .ok objs →
    contents.listing b input.request.keyPrefix input.request.provider = some objs)
    (contents.scannedBuckets input.request) outcomes.buckets
  content : List.Forall₂ (fun m r ↦ ∀ keys, r = .ok keys →
    contents.ContentRead T env input.request.database
      (contents.scannedBuckets input.request).toFinset m keys) input.content outcomes.content

/-- The earlier runs, and the checkpoints they leave. -/
inductive History {ι : Type*} [DecidableEq ι] (digest : CheckpointKey → ι) (T : Tables)
    (env : Env) : List RunInput → Checkpoints ι ν → Prop where
  | nil : History digest T env [] .empty
  | run {past : List RunInput} {before after : Checkpoints ι ν} {input : RunInput}
      {outcomes results : ItemOutcomes ν} (earlier : History digest T env past before)
      (fetched : contents.Fetched T env input outcomes)
      (runs : RunsTo digest input (contents.scannedBuckets input.request) outcomes before after
        results) : History digest T env (input :: past) after

/-- Items of the run whose files have the same name read the same. -/
structure KeepsApart (T : Tables) (env : Env) (input : RunInput) : Prop where
  mappings : ∀ m ∈ input.request.mappings, ∀ m' ∈ input.request.mappings,
    safeName (mappingKey m) = safeName (mappingKey m') → ∀ refs,
      contents.MappingRead input.request.database m refs →
        contents.MappingRead input.request.database m' refs
  buckets : ∀ b ∈ contents.scannedBuckets input.request,
    ∀ b' ∈ contents.scannedBuckets input.request, safeName b = safeName b' →
      contents.listing b input.request.keyPrefix input.request.provider =
        contents.listing b' input.request.keyPrefix input.request.provider
  content : ∀ m ∈ input.content, ∀ m' ∈ input.content,
    safeName (mappingKey m) = safeName (mappingKey m') → ∀ keys,
      contents.ContentRead T env input.request.database
          (contents.scannedBuckets input.request).toFinset m keys →
        contents.ContentRead T env input.request.database
          (contents.scannedBuckets input.request).toFinset m' keys

/-! ## What the files hold -/

section Files

variable {ι : Type*} (digest : CheckpointKey → ι)

/-- What a mapping of one of the runs reads. -/
def MappingFile (past : List RunInput) (f : ι × Str) (refs : List (DbFileReference ν)) : Prop :=
  ∃ input ∈ past, ∃ m ∈ input.request.mappings, checkpointIdFor digest input.request = f.1 ∧
    safeName (mappingKey m) = f.2 ∧ contents.MappingRead input.request.database m refs

def BucketFile (past : List RunInput) (f : ι × Str) (objs : List StorageObject) : Prop :=
  ∃ input ∈ past, ∃ b ∈ contents.scannedBuckets input.request,
    checkpointIdFor digest input.request = f.1 ∧ safeName b = f.2 ∧
    contents.listing b input.request.keyPrefix input.request.provider = some objs

/-- What a rich-text column of one of the runs reads, for the buckets of that run. -/
def ContentFile (T : Tables) (env : Env) (past : List RunInput) (f : ι × Str)
    (keys : Finset Str × ℕ) : Prop :=
  ∃ input ∈ past, ∃ m ∈ input.content, checkpointIdFor digest input.contentRequest = f.1 ∧
    safeName (mappingKey m) = f.2 ∧
    contents.ContentRead T env input.request.database
      (contents.scannedBuckets input.request).toFinset m keys

variable {contents digest} {T : Tables} {env : Env}

theorem mem_checkpointKeyFor_buckets {request : ReconciliationRequest} {b : Str}
    (hb : b ∈ contents.scannedBuckets request) (b' : Str) :
    b' ∈ (checkpointKeyFor request).buckets.getD (contents.bucketNames request.provider) ↔
      b' ∈ contents.scannedBuckets request := by
  unfold scannedBuckets at hb ⊢
  unfold checkpointKeyFor
  cases hrequest : request.buckets with
  | none => simp
  | some buckets =>
      cases buckets with
      | nil => simp [hrequest] at hb
      | cons c cs => simp [mem_sorted]

/-- A run leaves sound files behind, given sound ones. -/
theorem sound_of_runsTo [DecidableEq ι] {past : List RunInput} {before after : Checkpoints ι ν}
    {input : RunInput} {outcomes results : ItemOutcomes ν}
    (hfetched : contents.Fetched T env input outcomes)
    (hrun : RunsTo digest input (contents.scannedBuckets input.request) outcomes before after
      results)
    (hbefore : before.Sound (contents.MappingFile digest past) (contents.BucketFile digest past)
      (contents.ContentFile digest T env past)) :
    after.Sound (contents.MappingFile digest (input :: past))
        (contents.BucketFile digest (input :: past))
        (contents.ContentFile digest T env (input :: past)) ∧
      (results.AllOk → DeliversSound digest (contents.MappingFile digest (input :: past))
        (contents.BucketFile digest (input :: past))
        (contents.ContentFile digest T env (input :: past)) input
        (contents.scannedBuckets input.request) results) := by
  have hgrown : before.Sound (contents.MappingFile digest (input :: past))
      (contents.BucketFile digest (input :: past))
      (contents.ContentFile digest T env (input :: past)) := by
    apply hbefore.mono
    · rintro f d ⟨earlier, hearlier, hfile⟩
      exact ⟨earlier, List.mem_cons_of_mem input hearlier, hfile⟩
    · rintro f d ⟨earlier, hearlier, hfile⟩
      exact ⟨earlier, List.mem_cons_of_mem input hearlier, hfile⟩
    · rintro f d ⟨earlier, hearlier, hfile⟩
      exact ⟨earlier, List.mem_cons_of_mem input hearlier, hfile⟩
  apply hrun.sound hgrown hfetched.mappings hfetched.buckets hfetched.content
  · intro m hm refs hread
    exact ⟨input, List.mem_cons_self, m, hm, rfl, rfl, hread refs rfl⟩
  · intro b hb objs hread
    exact ⟨input, List.mem_cons_self, b, hb, rfl, rfl, hread objs rfl⟩
  · intro m hm keys hread
    exact ⟨input, List.mem_cons_self, m, hm, rfl, rfl, hread keys rfl⟩

theorem History.sound [DecidableEq ι] {past : List RunInput} {store : Checkpoints ι ν}
    (h : contents.History digest T env past store) :
    store.Sound (contents.MappingFile digest past) (contents.BucketFile digest past)
      (contents.ContentFile digest T env past) := by
  induction h with
  | nil => exact Checkpoints.sound_empty
  | run _ fetched runs ih => exact (sound_of_runsTo fetched runs ih).1

/-! ## What a run delivers -/

/-- Earlier runs that share a directory with the run had its request, and extracted
embedded keys for its buckets. -/
structure SharesOnlyOwn (contents : Contents ν) (digest : CheckpointKey → ι)
    (past : List RunInput) (input : RunInput) : Prop where
  scan : ∀ earlier ∈ past,
    checkpointIdFor digest earlier.request = checkpointIdFor digest input.request →
      checkpointKeyFor earlier.request = checkpointKeyFor input.request
  content : ∀ earlier ∈ past, input.content ≠ [] →
    checkpointIdFor digest earlier.contentRequest = checkpointIdFor digest input.contentRequest →
      checkpointKeyFor earlier.contentRequest = checkpointKeyFor input.contentRequest ∧
        (contents.scannedBuckets earlier.request).toFinset =
          (contents.scannedBuckets input.request).toFinset

variable {past : List RunInput} {input : RunInput}

theorem SharesOnlyOwn.with_self (h : SharesOnlyOwn contents digest past input) :
    SharesOnlyOwn contents digest (input :: past) input := by
  constructor
  · intro earlier hearlier hid
    rcases List.mem_cons.mp hearlier with rfl | hearlier
    · rfl
    · exact h.scan earlier hearlier hid
  · intro earlier hearlier hne hid
    rcases List.mem_cons.mp hearlier with rfl | hearlier
    · exact ⟨rfl, rfl⟩
    · exact h.content earlier hearlier hne hid

theorem MappingFile.mappingRead (hshares : SharesOnlyOwn contents digest past input)
    (hkeeps : contents.KeepsApart T env input) {m : TableColumnMapping}
    (hm : m ∈ input.request.mappings) {refs : List (DbFileReference ν)}
    (h : contents.MappingFile digest past
      (checkpointIdFor digest input.request, safeName (mappingKey m)) refs) :
    contents.MappingRead input.request.database m refs := by
  obtain ⟨earlier, hearlier, m₁, hm₁, hid, hname, hread⟩ := h
  have hkey := hshares.scan earlier hearlier hid
  have hdatabase : earlier.request.database = input.request.database :=
    congrArg CheckpointKey.database hkey
  rw [hdatabase] at hread
  obtain ⟨m₂, hm₂, hkeys, hread₂⟩ := exists_mapping_of_key hkey hm₁ hread
  exact hkeeps.mappings m₂ hm₂ m hm (by rw [hkeys, hname]) refs hread₂

theorem BucketFile.listing (hshares : SharesOnlyOwn contents digest past input)
    (hkeeps : contents.KeepsApart T env input) {b : Str}
    (hb : b ∈ contents.scannedBuckets input.request) {objs : List StorageObject}
    (h : contents.BucketFile digest past (checkpointIdFor digest input.request, safeName b) objs) :
    contents.listing b input.request.keyPrefix input.request.provider = some objs := by
  obtain ⟨earlier, hearlier, b₁, hb₁, hid, hname, hlist⟩ := h
  have hkey := hshares.scan earlier hearlier hid
  have hkeyPrefix : earlier.request.keyPrefix = input.request.keyPrefix :=
    congrArg CheckpointKey.keyPrefix hkey
  have hprovider : earlier.request.provider = input.request.provider :=
    congrArg CheckpointKey.provider hkey
  have hmem := (mem_checkpointKeyFor_buckets hb₁ b₁).mpr hb₁
  rw [hkey, hprovider] at hmem
  have hb₁' := (mem_checkpointKeyFor_buckets hb b₁).mp hmem
  rw [hkeyPrefix, hprovider] at hlist
  rw [← hkeeps.buckets b₁ hb₁' b hb hname]
  exact hlist

theorem ContentFile.contentRead (hshares : SharesOnlyOwn contents digest past input)
    (hkeeps : contents.KeepsApart T env input) {m : TableColumnMapping} (hm : m ∈ input.content)
    {keys : Finset Str × ℕ}
    (h : contents.ContentFile digest T env past
      (checkpointIdFor digest input.contentRequest, safeName (mappingKey m)) keys) :
    contents.ContentRead T env input.request.database
      (contents.scannedBuckets input.request).toFinset m keys := by
  obtain ⟨earlier, hearlier, m₁, hm₁, hid, hname, hread⟩ := h
  obtain ⟨hkey, hset⟩ := hshares.content earlier hearlier (List.ne_nil_of_mem hm) hid
  have hdatabase : earlier.request.database = input.request.database :=
    congrArg CheckpointKey.database hkey
  rw [hdatabase, hset] at hread
  obtain ⟨refs, hrefs, rfl⟩ := hread
  obtain ⟨m₂, hm₂, hkeys, hrefs₂⟩ := exists_mapping_of_key hkey hm₁ hrefs
  exact hkeeps.content m₂ hm₂ m hm (by rw [hkeys, hname]) _ ⟨refs, hrefs₂, rfl⟩

end Files

/-- Every item was delivered with what there is to read. -/
structure ReadsAll (T : Tables) (env : Env) (input : RunInput) (results : ItemOutcomes ν) :
    Prop where
  mappings : List.Forall₂ (fun m r ↦ ∃ refs, r = .ok refs ∧
    contents.MappingRead input.request.database m refs) input.request.mappings results.mappings
  buckets : List.Forall₂ (fun b r ↦ ∃ objs, r = .ok objs ∧
    contents.listing b input.request.keyPrefix input.request.provider = some objs)
    (contents.scannedBuckets input.request) results.buckets
  content : List.Forall₂ (fun m r ↦ ∃ keys, r = .ok keys ∧
    contents.ContentRead T env input.request.database
      (contents.scannedBuckets input.request).toFinset m keys) input.content results.content

variable {contents} {T : Tables} {env : Env} {input : RunInput} {results results' : ItemOutcomes ν}

theorem ReadsAll.unique (h : contents.ReadsAll T env input results)
    (h' : contents.ReadsAll T env input results') : results = results' := by
  have hmappings : results.mappings = results'.mappings := by
    refine List.right_unique_forall₂' ?_ h.mappings h'.mappings
    rintro m _ _ ⟨refs, rfl, hrefs⟩ ⟨refs', rfl, hrefs'⟩
    rw [hrefs.unique hrefs']
  have hbuckets : results.buckets = results'.buckets := by
    refine List.right_unique_forall₂' ?_ h.buckets h'.buckets
    rintro b _ _ ⟨objs, rfl, hobjs⟩ ⟨objs', rfl, hobjs'⟩
    rw [Option.some.inj (hobjs.symm.trans hobjs')]
  have hcontent : results.content = results'.content := by
    refine List.right_unique_forall₂' ?_ h.content h'.content
    rintro m _ _ ⟨_, rfl, refs, hrefs, rfl⟩ ⟨_, rfl, refs', hrefs', rfl⟩
    rw [hrefs.unique hrefs']
  cases results
  cases results'
  simp only at hmappings hbuckets hcontent
  rw [hmappings, hbuckets, hcontent]

theorem ReadsAll.fetched (h : contents.ReadsAll T env input results) :
    contents.Fetched T env input results := by
  refine ⟨h.mappings.imp ?_, h.buckets.imp ?_, h.content.imp ?_⟩
  · rintro m _ ⟨refs, rfl, hread⟩ refs' ⟨rfl⟩
    exact hread
  · rintro b _ ⟨objs, rfl, hread⟩ objs' ⟨rfl⟩
    exact hread
  · rintro m _ ⟨keys, rfl, hread⟩ keys' ⟨rfl⟩
    exact hread

theorem forall_ok_of_forall₂ {α δ : Type*} {R : α → δ → Prop} {items : List α}
    {results : List (Except Str δ)}
    (hall : List.Forall₂ (fun a r ↦ ∃ d, r = .ok d ∧ R a d) items results) :
    ∀ r ∈ results, ∃ d, r = Except.ok d := by
  induction hall with
  | nil => simp
  | cons hr _ ih =>
      obtain ⟨d, rfl, _⟩ := hr
      exact List.forall_mem_cons.mpr ⟨⟨d, rfl⟩, ih⟩

theorem ReadsAll.allOk (h : contents.ReadsAll T env input results) : results.AllOk :=
  ⟨forall_ok_of_forall₂ h.mappings, forall_ok_of_forall₂ h.buckets,
    forall_ok_of_forall₂ h.content⟩

section Resume

variable {ι : Type*} [DecidableEq ι] {digest : CheckpointKey → ι}

/-- Without failures, a run of a request that keeps its items apart delivers what
there is to read, whatever earlier runs left behind. -/
theorem History.readsAll {past : List RunInput} {before after : Checkpoints ι ν}
    {outcomes : ItemOutcomes ν} (hhistory : contents.History digest T env past before)
    (hkeeps : contents.KeepsApart T env input)
    (hshares : SharesOnlyOwn contents digest past input)
    (hfetched : contents.Fetched T env input outcomes)
    (hrun : RunsTo digest input (contents.scannedBuckets input.request) outcomes before after
      results)
    (hok : results.AllOk) : contents.ReadsAll T env input results := by
  have hdelivers := (sound_of_runsTo hfetched hrun hhistory.sound).2 hok
  have hshares' := hshares.with_self
  constructor
  · refine ((List.forall₂_and_left _ _).mpr ⟨fun m hm ↦ hm, hdelivers.mappings⟩).imp ?_
    rintro m _ ⟨hm, refs, rfl, hfile⟩
    exact ⟨refs, rfl, hfile.mappingRead hshares' hkeeps hm⟩
  · refine ((List.forall₂_and_left _ _).mpr ⟨fun b hb ↦ hb, hdelivers.buckets⟩).imp ?_
    rintro b _ ⟨hb, objs, rfl, hfile⟩
    exact ⟨objs, rfl, hfile.listing hshares' hkeeps hb⟩
  · refine ((List.forall₂_and_left _ _).mpr ⟨fun m hm ↦ hm, hdelivers.content⟩).imp ?_
    rintro m _ ⟨hm, keys, rfl, hfile⟩
    exact ⟨keys, rfl, hfile.contentRead hshares' hkeeps hm⟩

/-- Working off all items in order succeeds where all of them can be read. -/
theorem ReadsAll.sequentialRun_allOk (h : contents.ReadsAll T env input results) :
    (sequentialRun digest input (contents.scannedBuckets input.request) results).AllOk := by
  have htasks : ∀ {δ : Type _} {id : ι} {names : List Str} {outcomes : List (Except Str δ)},
      (∀ r ∈ outcomes, ∃ d, r = Except.ok d) →
      ∀ t ∈ tasksFor id names outcomes, ∃ d, t.2 = Except.ok d := by
    intro δ id names outcomes hall t ht
    exact hall t.2 (List.of_mem_zip ht).2
  exact ⟨inOrder_ok (htasks h.allOk.mappings), inOrder_ok (htasks h.allOk.buckets),
    inOrder_ok (htasks h.allOk.content)⟩

/-- A run in which nothing fails, after any runs of any requests and in any order of
its workers' steps, has the result of a sequential run without checkpoints, if the
files of its items tell them apart and earlier runs under its ids had its request
and its buckets. -/
theorem resumed_run_eq_sequential {past : List RunInput} {before after : Checkpoints ι ν}
    {outcomes : ItemOutcomes ν} (hhistory : contents.History digest T env past before)
    (hkeeps : contents.KeepsApart T env input)
    (hshares : SharesOnlyOwn contents digest past input)
    (hfetched : contents.Fetched T env input outcomes)
    (hrun : RunsTo digest input (contents.scannedBuckets input.request) outcomes before after
      results)
    (hok : results.AllOk) :
    (∃ fresh, contents.Fetched T env input fresh ∧
      (sequentialRun digest input (contents.scannedBuckets input.request) fresh).AllOk) ∧
    ∀ fresh, contents.Fetched T env input fresh →
      (sequentialRun digest input (contents.scannedBuckets input.request) fresh).AllOk →
      runResult T env input (contents.scannedBuckets input.request) results =
        runResult T env input (contents.scannedBuckets input.request)
          (sequentialRun digest input (contents.scannedBuckets input.request) fresh) := by
  have hreads := hhistory.readsAll hkeeps hshares hfetched hrun hok
  refine ⟨⟨results, hreads.fetched, hreads.sequentialRun_allOk⟩, fun fresh hfresh hall ↦ ?_⟩
  have hsequential := runsTo_runInOrder digest input (contents.scannedBuckets input.request) fresh
    .empty
  have hreads' : contents.ReadsAll T env input
      (sequentialRun digest input (contents.scannedBuckets input.request) fresh) :=
    History.readsAll .nil hkeeps ⟨by simp, by simp⟩ hfresh hsequential hall
  rw [hreads.unique hreads']

end Resume

end Contents

/-! ## Two id columns -/

/-- A user with two ids and a photo. -/
def usersTable : Table ℕ where
  name := "users".toList
  columns := [⟨"id".toList, "int".toList⟩, ⟨"uid".toList, "int".toList⟩,
    ⟨"photo".toList, "varchar".toList⟩]
  primaryKey := ["id".toList]
  tableRows := none
  rows := [⟨0, fun c ↦
    if c = "id".toList then some 1
    else if c = "uid".toList then some 7
    else if c = "photo".toList then some 3
    else none⟩]
  columns_nodup := by decide
  primaryKey_mem := by decide
  rows_nodup := by decide
  primaryKey_notNull := by decide
  primaryKey_unique := by decide

/-- The photo is the one object of the one bucket. -/
def usersContents : Contents ℕ where
  server _ := ⟨"school".toList, [usersTable], by simp⟩
  order idColumn := .stable (rowId idColumn)
  text := textOfLength
  bucketNames _ := ["scola".toList]
  listing b _ _ :=
    if b = "scola".toList then some [⟨"scola".toList, textOfLength 3, 5, none, none⟩] else none

def usersMapping (idColumn : Str) : TableColumnMapping :=
  ⟨"users".toList, "photo".toList, some idColumn⟩

def usersReference (id : ℕ) : DbFileReference ℕ :=
  ⟨"users".toList, "photo".toList, some id, textOfLength 3⟩

theorem usersContents_mappingRead_id :
    usersContents.MappingRead none (usersMapping "id".toList) [usersReference 1] :=
  ⟨"photo".toList, "id".toList, 1, rfl, fun h ↦ absurd h (by decide), rfl⟩

theorem usersContents_mappingRead_uid :
    usersContents.MappingRead none (usersMapping "uid".toList) [usersReference 7] :=
  ⟨"photo".toList, "uid".toList, 1, rfl, fun h ↦ absurd h (by decide), rfl⟩

theorem usersContents_listing :
    usersContents.listing "scola".toList none none =
      some [⟨"scola".toList, textOfLength 3, 5, none, none⟩] := rfl

/-- The photos by one or more id columns, compared with the bucket. -/
def usersInput (idColumns : List Str) : RunInput where
  request :=
    { mappings := idColumns.map usersMapping
      buckets := some ["scola".toList]
      keyPrefix := none
      database := none
      provider := none }
  contentMappings := none

def usersOutcomes (mappings : List (Except Str (List (DbFileReference ℕ)))) : ItemOutcomes ℕ where
  mappings := mappings
  buckets := [.ok [⟨"scola".toList, textOfLength 3, 5, none, none⟩]]
  content := []

theorem usersOutcomes_fetched (T : Tables) (env : Env) {idColumns : List Str}
    {mappings : List (Except Str (List (DbFileReference ℕ)))}
    (h : List.Forall₂ (fun m r ↦ ∀ refs, r = Except.ok refs →
      usersContents.MappingRead none m refs) (idColumns.map usersMapping) mappings) :
    usersContents.Fetched T env (usersInput idColumns) (usersOutcomes mappings) := by
  refine ⟨h, .cons ?_ .nil, .nil⟩
  rintro objs ⟨rfl⟩
  exact usersContents_listing

theorem usersOutcomes_allOk {mappings : List (Except Str (List (DbFileReference ℕ)))}
    (h : ∀ r ∈ mappings, ∃ refs, r = Except.ok refs) : (usersOutcomes mappings).AllOk :=
  ⟨h, by simp [usersOutcomes], by simp [usersOutcomes]⟩

/-- The bucket could not be listed at first, and the photos come from their checkpoint. -/
theorem resumed_run_eq_sequential_photo :
    (∃ fresh, usersContents.Fetched Tables.ascii sgp1Env (usersInput ["id".toList]) fresh ∧
      (sequentialRun id (usersInput ["id".toList]) ["scola".toList] fresh).AllOk) ∧
    ∀ fresh, usersContents.Fetched Tables.ascii sgp1Env (usersInput ["id".toList]) fresh →
      (sequentialRun id (usersInput ["id".toList]) ["scola".toList] fresh).AllOk →
      runResult Tables.ascii sgp1Env (usersInput ["id".toList]) ["scola".toList]
          (usersOutcomes [.ok [usersReference 1]]) =
        runResult Tables.ascii sgp1Env (usersInput ["id".toList]) ["scola".toList]
          (sequentialRun id (usersInput ["id".toList]) ["scola".toList] fresh) := by
  let outcomes := usersOutcomes [.ok [usersReference 1]]
  let failing : ItemOutcomes ℕ := { outcomes with buckets := [.error timedOut] }
  have hfetched : usersContents.Fetched Tables.ascii sgp1Env (usersInput ["id".toList])
      outcomes := by
    refine usersOutcomes_fetched _ _ (.cons ?_ .nil)
    rintro refs ⟨rfl⟩
    exact usersContents_mappingRead_id
  have hfailing : usersContents.Fetched Tables.ascii sgp1Env (usersInput ["id".toList])
      failing := ⟨hfetched.mappings, .cons (fun objs hobjs ↦ nomatch hobjs) .nil, .nil⟩
  have hkeeps : usersContents.KeepsApart Tables.ascii sgp1Env (usersInput ["id".toList]) := by
    refine ⟨fun m hm m' hm' _ refs hrefs ↦ ?_, fun b hb b' hb' _ ↦ ?_,
      fun m hm ↦ absurd hm List.not_mem_nil⟩
    · rw [List.mem_singleton.mp hm'] at *
      rwa [List.mem_singleton.mp hm] at hrefs
    · rw [List.mem_singleton.mp hb, List.mem_singleton.mp hb']
  have hshares : Contents.SharesOnlyOwn usersContents id [usersInput ["id".toList]]
      (usersInput ["id".toList]) :=
    ⟨fun _ _ hkey ↦ hkey, fun _ _ hcontent ↦ absurd rfl hcontent⟩
  exact Contents.resumed_run_eq_sequential
    (.run .nil hfailing
      (runsTo_runInOrder id (usersInput ["id".toList]) ["scola".toList] failing .empty))
    hkeeps hshares hfetched
    (runsTo_runInOrder id (usersInput ["id".toList]) ["scola".toList] outcomes _)
    (usersOutcomes_allOk (by simp))

/-- After a run that could not read the first id column, the resumed run matches the
photo with the other id. -/
theorem resumed_run_other_id :
    ¬∀ (contents : Contents ℕ) (T : Tables) (env : Env) (past : List RunInput)
      (before after : Checkpoints CheckpointKey ℕ) (input : RunInput)
      (outcomes results fresh : ItemOutcomes ℕ), contents.History id T env past before →
      contents.Fetched T env input outcomes →
      RunsTo id input (contents.scannedBuckets input.request) outcomes before after results →
      results.AllOk → contents.Fetched T env input fresh →
      (sequentialRun id input (contents.scannedBuckets input.request) fresh).AllOk →
      runResult T env input (contents.scannedBuckets input.request) results =
        runResult T env input (contents.scannedBuckets input.request)
          (sequentialRun id input (contents.scannedBuckets input.request) fresh) := by
  intro h
  let input := usersInput ["id".toList, "uid".toList]
  let failing := usersOutcomes [.error timedOut, .ok [usersReference 7]]
  let outcomes := usersOutcomes [.ok [usersReference 1], .ok [usersReference 7]]
  let before := (runInOrder id input ["scola".toList] failing .empty).1
  have hfailing : usersContents.Fetched Tables.ascii sgp1Env input failing := by
    refine usersOutcomes_fetched _ _ (.cons (fun refs hrefs ↦ nomatch hrefs) (.cons ?_ .nil))
    rintro refs ⟨rfl⟩
    exact usersContents_mappingRead_uid
  have hfetched : usersContents.Fetched Tables.ascii sgp1Env input outcomes := by
    refine usersOutcomes_fetched _ _ (.cons ?_ (.cons ?_ .nil))
    · rintro refs ⟨rfl⟩
      exact usersContents_mappingRead_id
    · rintro refs ⟨rfl⟩
      exact usersContents_mappingRead_uid
  have hresumed : (runInOrder id input ["scola".toList] outcomes before).2 =
      usersOutcomes [.ok [usersReference 7], .ok [usersReference 7]] := rfl
  have hfresh : sequentialRun id input ["scola".toList] outcomes =
      usersOutcomes [.ok [usersReference 1], .ok [usersReference 1]] := rfl
  have hequal := h usersContents Tables.ascii sgp1Env [input] before _ input outcomes _ outcomes
    (.run .nil hfailing (runsTo_runInOrder id input ["scola".toList] failing .empty)) hfetched
    (runsTo_runInOrder id input ["scola".toList] outcomes before)
    (hresumed ▸ usersOutcomes_allOk (by simp)) hfetched (hfresh ▸ usersOutcomes_allOk (by simp))
  rw [hresumed] at hequal
  have hscanned : usersContents.scannedBuckets input.request = ["scola".toList] := rfl
  rw [hscanned, hfresh] at hequal
  have hids := congrArg (fun r ↦ r.matched.map MatchedFile.id) hequal
  exact absurd hids (by decide)

end StorageReconciler
