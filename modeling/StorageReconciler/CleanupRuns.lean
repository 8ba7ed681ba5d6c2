import StorageReconciler.ArchivedContents
import StorageReconciler.MatchedReport
import StorageReconciler.ReconciliationRun

/-!
# From a scan to deletions

A run reports the objects that nothing refers to, as orphans or as candidates for a
cleanup.  The report is handed in again, as it is or cut down by hand, and archive runs
delete what it names.  Whatever such a run removes was listed by the scan, is not
referred to by anything the scan has read, and is in the archive.
-/

namespace StorageReconciler

open Strings

variable {ι κ σ δ : Type*}

/-! ## The scan -/

structure DoCleanupSummary where
  candidateCount : ℕ
  protectedCount : ℕ
  orphanCount : ℕ
  matchedCount : ℕ
  missingCount : ℕ
  databaseFileCount : ℕ
  storageObjectCount : ℕ
  contentReferenceCount : ℕ
  otherProviderCount : ℕ
  differentProviderCount : ℕ
  deriving DecidableEq

structure DoCleanupResult where
  candidates : List CleanupCandidate
  «protected» : List CleanupCandidate
  summary : DoCleanupSummary
  deriving DecidableEq

def asCandidates (items : List OrphanFile) : List CleanupCandidate :=
  items.map fun o ↦ ⟨o.path, o.bucket, o.size, o.lastModified⟩

/-- What the scan makes of the result of its run. -/
def doCleanupResult (result : ReconciliationResult κ) : DoCleanupResult :=
  let candidates := asCandidates result.orphan
  let «protected» := asCandidates result.protected
  { candidates := candidates
    «protected» := «protected»
    summary :=
      { candidateCount := candidates.length
        protectedCount := «protected».length
        orphanCount := result.summary.orphanCount + result.summary.protectedCount
        matchedCount := result.summary.matchedCount
        missingCount := result.summary.missingCount
        databaseFileCount := result.summary.databaseFileCount
        storageObjectCount := result.summary.storageObjectCount
        contentReferenceCount := result.summary.contentReferenceCount
        otherProviderCount := result.summary.otherProviderCount
        differentProviderCount := result.summary.differentProviderCount } }

/-- The run that the scan asks for. -/
def doCleanupInput (database : Str) (fileMappings contentMappings : List TableColumnMapping)
    (buckets : Option (List Str)) (keyPrefix provider : Option Str) : RunInput where
  request := ⟨fileMappings, buckets, keyPrefix, some database, provider⟩
  contentMappings := some contentMappings

/-- The scan over the buckets, given what the items of its run delivered. -/
def runDoCleanupScan (T : Tables) (env : Env) (input : RunInput) (buckets : List Str)
    (results : ItemOutcomes κ) : DoCleanupResult :=
  doCleanupResult (runResult T env input buckets results)

/-! ## The report -/

def protectedName : Str := "Protected (in rich-text content)".toList

def totalSize (files : List CleanupCandidate) : ℕ := (files.map OrphanFile.size).sum

/-- `gb` writes a size. -/
def cleanupSummaryRows (gb : ℕ → Cell) (result : DoCleanupResult) : List (List Cell) :=
  let count n := Cell.number (Nat.repr n).toList (n == 0)
  let plain label n := [.text label, count n, .text []]
  ["Metric", "Count", "Size (GB)"].map (fun s ↦ .text s.toList) ::
    [[.text "Cleanup Candidates".toList, count result.summary.candidateCount,
        gb (totalSize result.candidates)],
      [.text protectedName, count result.summary.protectedCount,
        gb (totalSize result.protected)],
      plain "Total Orphan (candidates + protected)".toList result.summary.orphanCount,
      plain "Matched".toList result.summary.matchedCount,
      plain "Missing".toList result.summary.missingCount,
      plain "Database File References".toList result.summary.databaseFileCount,
      plain "Rich-text Rows Scanned".toList result.summary.contentReferenceCount,
      plain "Object Storage Objects".toList result.summary.storageObjectCount,
      plain "Skipped (other provider)".toList result.summary.otherProviderCount,
      plain "Skipped (different provider host)".toList result.summary.differentProviderCount]

def generateDoCleanupReport (T : Tables) (env : Env) (query : Str → Str → Str)
    (formats : Formats) (gb : ℕ → Cell) (provider : Option Str) (result : DoCleanupResult) :
    Except Str Workbook := do
  let candidates ← DeletableSheet.cleanupCandidates.write T env query formats provider
    result.candidates
  let protectedRows ← writeSheet protectedHeaders
    (fun file ↦ (buildObjectPresignedUrl T env query provider file.bucket file.path).map fun u ↦
      protectedRow formats u file) result.protected
  return [("Cleanup Candidates".toList, candidates), (protectedName, protectedRows),
    ("Summary".toList, cleanupSummaryRows gb result)]

/-- A report as it is handed in: files left out, moved or repeated, and without its hidden
columns only where every link leads to its object. -/
inductive HandedIn (T : Tables) (env : Env) (query : Str → Str → Str) (formats : Formats)
    (provider : Option Str) (sheet : DeletableSheet) (files : List OrphanFile) :
    Workbook → Prop where
  | kept {header : List Cell} {rows shortlist : List (List Cell)}
      (others : Str → List (List Cell))
      (written : sheet.write T env query formats provider files = .ok (header :: rows))
      (chosen : ∀ row ∈ shortlist, row ∈ rows) :
      HandedIn T env query formats provider sheet files
        (sheet.workbook others (header :: shortlist))
  | lost {header : List Cell} {rows shortlist : List (List Cell)}
      (others : Str → List (List Cell))
      (written : sheet.write T env query formats provider files = .ok (header :: rows))
      (chosen : ∀ row ∈ shortlist, row ∈ rows)
      (unbroken : ∀ bucket key, ∀ c ∈ query bucket key, isSpace c = false)
      (named : ∀ file ∈ files, IsBucketName file.bucket ∧ file.path ≠ [])
      (leads : ∀ file ∈ files, LeadsToObject env provider file.bucket file.path) :
      HandedIn T env query formats provider sheet files
        (sheet.workbook others (sheet.dropHidden (header :: shortlist)))

section Report

variable {T : Tables} {env : Env} {query : Str → Str → Str} {formats : Formats} {gb : ℕ → Cell}
  {provider : Option Str} {sheet : DeletableSheet} {files : List OrphanFile} {workbook : Workbook}

/-- The workbook of the report by its sheets. -/
theorem workbook_cleanupCandidates (rows protectedRows summaryRows : List (List Cell)) :
    DeletableSheet.cleanupCandidates.workbook
        (fun name ↦ if name = protectedName then protectedRows else summaryRows) rows =
      [("Cleanup Candidates".toList, rows), (protectedName, protectedRows),
        ("Summary".toList, summaryRows)] := by
  have hother : "Summary".toList ≠ protectedName := by decide
  rw [DeletableSheet.workbook, if_neg hother]
  rfl

theorem handedIn_of_write {others : Str → List (List Cell)} {rows : List (List Cell)}
    (h : sheet.write T env query formats provider files = .ok rows) :
    HandedIn T env query formats provider sheet files (sheet.workbook others rows) := by
  obtain ⟨rfl, _⟩ := rows_of_write h
  exact .kept others h fun _ hrow ↦ hrow

/-- The report of a cleanup scan can be handed in as it was written. -/
theorem handedIn_of_cleanup {result : DoCleanupResult}
    (h : generateDoCleanupReport T env query formats gb provider result = .ok workbook) :
    HandedIn T env query formats provider .cleanupCandidates result.candidates workbook := by
  rw [generateDoCleanupReport, Fallible.bind_eq_ok_iff] at h
  obtain ⟨candidates, hwritten, h⟩ := h
  rw [Fallible.bind_eq_ok_iff] at h
  obtain ⟨protectedRows, _, h⟩ := h
  obtain rfl := Except.ok.inj h
  rw [← workbook_cleanupCandidates]
  exact handedIn_of_write hwritten

/-- And so can that of a reconciliation. -/
theorem handedIn_of_reconciliation {idCell : κ → Cell} {result : ReconciliationResult κ}
    (h : generateReconciliationReport T env query formats gb idCell provider result =
      .ok workbook) :
    HandedIn T env query formats provider .orphan result.orphan workbook := by
  obtain ⟨others, rows, hwritten, rfl, _⟩ := sheets_of_report h
  exact handedIn_of_write hwritten

theorem keptPair_text {bucket k b key : Str}
    (h : keptPair (.text bucket, .text k) = some (.text b, .text key)) : bucket = b ∧ k = key := by
  unfold keptPair at h
  split_ifs at h
  obtain ⟨hbucket, hkey⟩ := Prod.mk.inj (Option.some.inj h)
  exact ⟨Cell.text.inj hbucket, Cell.text.inj hkey⟩

/-- Whatever is read from the report that was handed in is one of its files. -/
theorem HandedIn.exists_file {pairs : List (Cell × Cell)} {item : Str × Str}
    (h : HandedIn T env query formats provider sheet files workbook)
    (hread : deletedPairs T env workbook = .ok pairs)
    (hitem : (Cell.text item.1, Cell.text item.2) ∈ pairs) :
    ∃ file ∈ files, file.bucket = item.1 ∧ file.path = item.2 := by
  cases h with
  | @kept header rows shortlist others written chosen =>
      obtain ⟨hrows, _⟩ := rows_of_write written
      obtain ⟨rfl, rfl⟩ := List.cons.inj hrows
      obtain ⟨hpath, hsize⟩ := sheet.written_columns
      have hne : sheet.headers ≠ [] := by cases sheet <;> decide
      rw [deletedPairs_workbook T env sheet others shortlist hne sheet.plain_headers hpath
        hsize] at hread
      obtain rfl := Except.ok.inj hread
      obtain ⟨row, hrow, hpair⟩ := List.mem_filterMap.mp hitem
      obtain ⟨file, hfile, rfl⟩ := List.mem_map.mp (chosen row hrow)
      rw [deletableAddress_written] at hpair
      exact ⟨file, hfile, keptPair_text hpair⟩
  | @lost header rows shortlist others written chosen unbroken named leads =>
      obtain ⟨hrows, hclient⟩ := rows_of_write written
      obtain ⟨rfl, rfl⟩ := List.cons.inj hrows
      obtain ⟨hpath, hsize, _⟩ := sheet.visible_columns
      have hne : sheet.headers.take sheet.visibleColumns ≠ [] := by cases sheet <;> decide
      rw [DeletableSheet.dropHidden, List.map_cons, ← List.map_take,
        deletedPairs_workbook T env sheet others _ hne sheet.plain_visible hpath hsize] at hread
      obtain rfl := Except.ok.inj hread
      rw [List.filterMap_map] at hitem
      obtain ⟨row, hrow, hpair⟩ := List.mem_filterMap.mp hitem
      obtain ⟨file, hfile, rfl⟩ := List.mem_map.mp (chosen row hrow)
      obtain ⟨config, hconfig⟩ := hclient (List.ne_nil_of_mem hfile)
      obtain ⟨hbucket, hkey⟩ := named file hfile
      have haddress := (address_signedUrl_iff (T := T) hconfig hbucket hkey (unbroken _ _)).mpr
        (leads file hfile)
      rw [Function.comp_apply, deletableAddress_visible (signedUrl_ne_nil _ _), haddress] at hpair
      exact ⟨file, hfile, keptPair_text hpair⟩

end Report

/-! ## What archive runs remove -/

/-- The scan has listed the object at its provider, and nothing that it has read refers to
its key. -/
structure IsUnreferenced (T : Tables) (env : Env) (store : Option Str → σ)
    (request : ReconciliationRequest) (buckets : List Str) (data : ScanData κ)
    (l : Location σ) : Prop where
  listed : ∃ obj ∈ data.bucketResults.flatten,
    l = ⟨store (effectiveProvider env request), obj.bucket, obj.key⟩
  unnamed : ∀ ref ∈ data.mappingResults.flatten,
    inScope T env (effectiveProvider env request) buckets ref = true → keyOf T env ref ≠ l.key
  unembedded : ¬IsEmbedded data.contentResults l.key

section Scan

variable {T : Tables} {env : Env} {input : RunInput} {buckets : List Str} {results : ItemOutcomes κ}

theorem isUnreferenced_of_orphan (store : Option Str → σ) {file : OrphanFile}
    (h : file ∈ (runResult T env input buckets results).orphan) :
    IsUnreferenced T env store input.request buckets (results.scan input)
      ⟨store (effectiveProvider env input.request), file.bucket, file.path⟩ := by
  obtain ⟨k, obj, hlast, hnone, hcontent, rfl⟩ := mem_orphan.mp h
  have hmem := List.mem_reverse.mp (List.mem_of_find?_eq_some hlast)
  have hfound := List.find?_some hlast
  obtain rfl : obj.key = k := of_decide_eq_true hfound
  refine ⟨⟨obj, hmem, rfl⟩, fun ref href hscope hsame ↦ ?_, hcontent⟩
  apply firstReference_ne_none href hscope
  rw [hsame]
  exact hnone

/-- The candidates of a scan are the orphans of its run. -/
theorem candidates_runDoCleanupScan :
    (runDoCleanupScan T env input buckets results).candidates =
      (runResult T env input buckets results).orphan := List.map_id' _

end Scan

section Removal

variable [DecidableEq σ] {archive : σ} {sha256 : List UInt8 → δ}
  {named : Location σ → ObjectHead → List UInt8} {objects objects' : Objects σ}
  {run run' : ArchiveRun σ δ}

/-- A run removes an object only when it deletes a source that it has found unchanged. -/
theorem RunStep.exists_approved (h : RunStep archive sha256 named objects run objects' run')
    {l : Location σ} {o : StoredObject} (hthere : objects l = some o) (hgone : objects' l = none) :
    ∃ i item source, run.items[i]? = some item ∧ run.verify i = .approved source ∧
      l = run.sourceOf item := by
  have hkept : objects' = objects → False := fun hsame ↦
    absurd (hthere.symm.trans ((congrFun hsame l).symm.trans hgone)) (Option.some_ne_none o)
  cases h with
  | begins => exact (hkept rfl).elim
  | copies phase at_item step =>
      rcases step.objects_cases with hsame | ⟨_, obj, _, _, _, hput⟩
      · exact (hkept hsame).elim
      · rw [hput, Function.update_apply] at hgone
        split_ifs at hgone
        exact absurd (hthere.symm.trans hgone) (Option.some_ne_none o)
  | verifies => exact (hkept rfl).elim
  | verify => exact (hkept rfl).elim
  | @delete _ _ i item copied source result phase at_item copy approved request =>
      rcases request.objects_cases with hsame | hdeleted
      · exact (hkept hsame).elim
      · refine ⟨i, item, source, at_item, approved, ?_⟩
        by_contra hother
        rw [hdeleted, Function.update_of_ne hother] at hgone
        exact absurd (hthere.symm.trans hgone) (Option.some_ne_none o)

end Removal

/-- Whatever an archive run removes whose items were chosen from the report of a scan of the
same provider was listed by that scan, has nothing referring to it that the scan has read,
and stays in the archive. -/
theorem reported_removal_is_safe [DecidableEq σ] {archive : σ} {sha256 : List UInt8 → δ}
    {named : Location σ → ObjectHead → List UInt8} (hsha : Function.Injective sha256)
    {T : Tables} {env : Env} {query : Str → Str → Str} {formats : Formats}
    {input : RunInput} {buckets : List Str} {results : ItemOutcomes κ} {sheet : DeletableSheet}
    {workbook : Workbook} {pairs : List (Cell × Cell)}
    (hreport : HandedIn T env query formats input.request.provider sheet
      (runResult T env input buckets results).orphan workbook)
    (hread : deletedPairs T env workbook = .ok pairs)
    {s₀ s : ArchiveSystem σ δ} (hstart : IsArchiveStart archive named s₀)
    (hreach : Relation.ReflTransGen (ArchiveStep archive sha256 named) s₀ s)
    {r : ℕ} {run run' : ArchiveRun σ δ} (hrun : s.runs r = some run) {store : Option Str → σ}
    (hsource : run.source = store (effectiveProvider env input.request))
    (hchosen : ∀ item ∈ run.items, (Cell.text item.1, Cell.text item.2) ∈ pairs)
    {objects : Objects σ} (hstep : RunStep archive sha256 named s.objects run objects run')
    {l : Location σ} {o : StoredObject} (hthere : s.objects l = some o) (hgone : objects l = none) :
    ∃ item ∈ run.items, l = run.sourceOf item ∧
      IsUnreferenced T env store input.request buckets (results.scan input) l ∧
      ∃ obj, obj.bytes = o.bytes ∧
        ∀ s', Relation.ReflTransGen (ArchiveStep archive sha256 named) s s' →
          s'.objects (archiveLocation archive item) = some obj := by
  obtain ⟨i, item, source, hitem, happroved, rfl⟩ := hstep.exists_approved hthere hgone
  have hmem := List.mem_of_getElem? hitem
  obtain ⟨file, hfile, hbucket, hkey⟩ := hreport.exists_file hread (hchosen item hmem)
  have hunreferenced := isUnreferenced_of_orphan store hfile
  rw [hbucket, hkey, ← hsource] at hunreferenced
  have hinv : Archived archive sha256 named s := hstart.archived.reachable hsha hreach
  have hverified := hinv.verified r run hrun i item hitem
  rw [happroved] at hverified
  obtain ⟨obj, hfrozen, hbytes⟩ := hverified
  have hplain := (hinv.ordered r run hrun).plain item hmem
  refine ⟨item, hmem, rfl, hunreferenced, obj, (hbytes o hthere).symm, fun s' hlater ↦ ?_⟩
  exact (hfrozen.reachable hinv.ordered hplain hlater).1

/-! ## One school file -/

def schoolInput : RunInput :=
  doCleanupInput "lms".toList [⟨"users".toList, "photo".toList, none⟩]
    [⟨"lessons".toList, "body".toList, none⟩] (some ["school".toList]) none none

def schoolListing (key : String) : StorageObject := ⟨"school".toList, key.toList, 1, none, none⟩

/-- Of three objects that are listed a row names one, and a text shows another. -/
def schoolResults : ItemOutcomes ℕ where
  mappings := [.ok [⟨"users".toList, "photo".toList, some 1, "face.png".toList⟩]]
  buckets := [.ok [schoolListing "face.png", schoolListing "file", schoolListing "map.png"]]
  content := [.ok ({"map.png".toList}, 1)]

/-- The provider that is scanned is the default one. -/
def schoolStore (provider : Option Str) : Str :=
  if provider = some "do-sgp1".toList then "do".toList else "wasabi".toList

def schoolScan : DoCleanupResult :=
  runDoCleanupScan Tables.ascii sgp1Env schoolInput ["school".toList] schoolResults

/-- The report of the scan names the file alone. -/
theorem schoolScan_report : ∃ workbook, HandedIn Tables.ascii sgp1Env plainQuery plainFormats none
      .cleanupCandidates
      (runResult Tables.ascii sgp1Env schoolInput ["school".toList] schoolResults).orphan workbook ∧
    deletedPairs Tables.ascii sgp1Env workbook =
      .ok [(.text "school".toList, .text "file".toList)] := by
  let url : OrphanFile → Str := fun file ↦
    signedUrl Tables.ascii sgp1Env plainQuery none file.bucket file.path
  have hcandidates : schoolScan.candidates = [⟨"file".toList, "school".toList, 1, none⟩] := by
    decide
  have hbucket : ∀ file ∈ schoolScan.candidates, IsBucketName file.bucket := by
    intro file hfile
    rw [hcandidates] at hfile
    obtain rfl := List.mem_singleton.mp hfile
    exact ⟨by decide, by decide⟩
  have hkey : ∀ file ∈ schoolScan.candidates, file.path ≠ [] := by
    rw [hcandidates]
    decide
  have hwritten : DeletableSheet.cleanupCandidates.write Tables.ascii sgp1Env plainQuery
      plainFormats none schoolScan.candidates =
      .ok (DeletableSheet.cleanupCandidates.headers.map .text ::
        schoolScan.candidates.map fun file ↦
          DeletableSheet.cleanupCandidates.row plainFormats (url file) file) := rfl
  have hpairs : schoolScan.candidates.map listedPair =
      [(.text "school".toList, .text "file".toList)] := by decide
  rw [← candidates_runDoCleanupScan, ← hpairs]
  exact ⟨_, handedIn_of_write hwritten, deletedPairs_written (fun _ ↦ []) url hbucket hkey⟩

/-- The run that has asked for the deletion. -/
def schoolDeleting : ArchiveRun Str (List UInt8) :=
  schoolRun .verifying (.done schoolCopied) (.approved schoolObject.head)

theorem schoolDeleting_deletes : ∃ run', RunStep "wasabi".toList id (fun _ _ ↦ [1]) schoolArchived
    schoolDeleting (Function.update schoolArchived schoolLocation none) run' := by
  have hcopy : schoolDeleting.copy 0 = .done schoolCopied := by
    simp only [schoolDeleting, schoolRun, Function.update_self]
  have happroved : schoolDeleting.verify 0 = .approved schoolObject.head := by
    simp only [schoolDeleting, schoolRun, Function.update_self]
  exact ⟨_, .delete (i := 0) rfl rfl hcopy happroved .deleted⟩

theorem reported_removal_is_safe_school :
    ∃ item ∈ [schoolItem], schoolLocation = schoolDeleting.sourceOf item ∧
      IsUnreferenced Tables.ascii sgp1Env schoolStore schoolInput.request ["school".toList]
        (schoolResults.scan schoolInput) schoolLocation ∧
      ∃ obj : StoredObject, obj.bytes = schoolObject.bytes ∧
        ∀ s', Relation.ReflTransGen (ArchiveStep "wasabi".toList id fun _ _ ↦ [1])
          (.single schoolArchived schoolDeleting) s' →
          s'.objects (archiveLocation "wasabi".toList item) = some obj := by
  obtain ⟨workbook, hreport, hread⟩ := schoolScan_report
  have hrun : (ArchiveSystem.single schoolArchived schoolDeleting).runs 0 =
      some schoolDeleting := by
    simp only [ArchiveSystem.single, Function.update_self]
  have hthere : schoolArchived schoolLocation = some schoolObject := by
    have hne : schoolLocation ≠ archiveLocation "wasabi".toList schoolItem := by decide
    simp only [schoolArchived, schoolSystem, Function.update_of_ne hne, Function.update_self]
  have hchosen : ∀ item ∈ schoolDeleting.items, (Cell.text item.1, Cell.text item.2) ∈
      [(Cell.text "school".toList, Cell.text "file".toList)] := by decide
  have hsource : schoolDeleting.source =
      schoolStore (effectiveProvider sgp1Env schoolInput.request) := by decide
  obtain ⟨run', hstep⟩ := schoolDeleting_deletes
  exact reported_removal_is_safe Function.injective_id hreport hread schoolSystem_start
    schoolSystem_approved hrun hsource hchosen hstep hthere (Function.update_self ..)

end StorageReconciler
