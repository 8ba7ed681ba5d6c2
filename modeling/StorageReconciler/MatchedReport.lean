import StorageReconciler.DeletableReport
import StorageReconciler.Foundations.Fallible

/-!
# Reading matched files back

The report on a reconciliation lists a matched file by the value stored in the
database.  Its key is not written, so it is resolved again from that value when the
report is read.
-/

namespace StorageReconciler

open Strings Fallible

variable {κ : Type*}

/-! ## Writing -/

/-- The value a cell shows; the link behind it is not read back. -/
def rawValueCell (rawValue fallbackUrl : Option Str) : Cell :=
  .text (rawValue.getD (fallbackUrl.getD []))

def rowIdCell (idCell : κ → Cell) (id : Option κ) : Cell := (id.map idCell).getD .blank

def matchedHeaders : List Str :=
  ["Value (as stored in DB)", "Bucket", "Size (MB)", "Last Modified", "Table", "Column",
    "Row ID"].map String.toList

def matchedRow (formats : Formats) (idCell : κ → Cell) (url : Str) (file : MatchedFile κ) :
    List Cell :=
  [rawValueCell file.rawValue (some url), .text file.bucket, formats.mb file.size,
    formats.naive file.lastModified, .text file.table, .text file.column,
    rowIdCell idCell file.id]

def missingHeaders : List Str :=
  ["Value (as stored in DB)", "Table", "Column", "Row ID"].map String.toList

def missingRow (idCell : κ → Cell) (url : Option Str) (file : MissingFile κ) : List Cell :=
  [rawValueCell file.rawValue url, .text file.table, .text file.column, rowIdCell idCell file.id]

def protectedHeaders : List Str :=
  ["Path", "Bucket", "Size (MB)", "Last Modified"].map String.toList

def protectedRow (formats : Formats) (url : Str) (file : OrphanFile) : List Cell :=
  [.text url, .text file.bucket, formats.mb file.size, formats.naive file.lastModified]

/-- `gb` writes a size. -/
def reconciliationSummaryRows (gb : ℕ → Cell) (result : ReconciliationResult κ) :
    List (List Cell) :=
  let number n := Cell.number (Nat.repr n).toList (n == 0)
  let row label count size := [.text (String.toList label), number count, size]
  let matchedSize := (result.matched.map MatchedFile.size).sum
  let orphanSize := (result.orphan.map OrphanFile.size).sum
  let protectedSize := (result.protected.map OrphanFile.size).sum
  let summary := result.summary
  [["Metric", "Count", "Size (GB)"].map fun s ↦ .text s.toList,
    row "Matched" summary.matchedCount (gb matchedSize),
    row "Missing" summary.missingCount (.text []),
    row "Orphan (confirmed unused)" summary.orphanCount (gb orphanSize),
    row "Protected (in rich-text/JSON content)" summary.protectedCount (gb protectedSize),
    row "Database File References" summary.databaseFileCount (.text []),
    row "Rich-text/JSON Rows Scanned" summary.contentReferenceCount (.text []),
    row "Object Storage Objects" summary.storageObjectCount
      (gb (matchedSize + orphanSize + protectedSize)),
    row "Skipped (other provider)" summary.otherProviderCount (.text []),
    row "Skipped (different provider host)" summary.differentProviderCount (.text [])]

/-- Header and rows of a sheet, unless one of the rows cannot be written. -/
def writeSheet {α : Type*} (headers : List Str) (row : α → Except Str (List Cell))
    (files : List α) : Except Str (List (List Cell)) := do
  let rows ← files.mapM row
  return headers.map .text :: rows

/-- Where a missing file would be, if a bucket is known for it. -/
def missingUrl (url : Str → Str → Except Str Str) (file : MissingFile κ) :
    Except Str (Option Str) :=
  match file.bucket with
  | some (c :: s) => (url (c :: s) file.path).map some
  | _ => .ok none

def generateReconciliationReport (T : Tables) (env : Env) (query : Str → Str → Str)
    (formats : Formats) (gb : ℕ → Cell) (idCell : κ → Cell) (provider : Option Str)
    (result : ReconciliationResult κ) : Except Str Workbook := do
  let url := buildObjectPresignedUrl T env query provider
  let matchedRows ← writeSheet matchedHeaders
    (fun file ↦ (url file.bucket file.path).map fun u ↦ matchedRow formats idCell u file)
    result.matched
  let missingRows ← writeSheet missingHeaders
    (fun file ↦ (missingUrl url file).map fun u ↦ missingRow idCell u file) result.missing
  let orphanRows ← DeletableSheet.orphan.write T env query formats provider result.orphan
  let protectedRows ← writeSheet protectedHeaders
    (fun file ↦ (url file.bucket file.path).map fun u ↦ protectedRow formats u file)
    result.protected
  return [("Matched".toList, matchedRows), ("Missing".toList, missingRows),
    ("Orphan".toList, orphanRows), ("Protected (rich-text, JSON)".toList, protectedRows),
    ("Summary".toList, reconciliationSummaryRows gb result)]

/-! ## Reading -/

structure MatchedReportRow where
  rawValue : Cell
  bucket : Cell
  key : Str
  sizeMb : Cell
  lastModified : Option Str
  table : Cell
  column : Cell
  rowId : Cell
  deriving DecidableEq

/-- The names the column of the stored value has had. -/
def matchedPathHeaders : List Str := ["path".toList, "value (as stored in db)".toList]

def parseMatchedRow (T : Tables) (env : Env) (pathCol : Str) (header row : List Cell) :
    Option MatchedReportRow :=
  let rawValue := cellValue T header row pathCol
  let bucket := cellValue T header row "bucket".toList
  if !rawValue.truthy || !bucket.truthy then none
  else
    let key := (splitObjectReference T env rawValue.printed).key
    if key = [] then none
    else
      let lastModified := cellValue T header row "last modified".toList
      some
        { rawValue := rawValue
          bucket := bucket
          key := key
          sizeMb := cellValue T header row "size (mb)".toList
          lastModified := if lastModified = .blank then none else some lastModified.printed
          table := cellValue T header row "table".toList
          column := cellValue T header row "column".toList
          rowId := cellValue T header row "row id".toList }

def parseMatchedReport (T : Tables) (env : Env) (workbook : Workbook) :
    Except Str (List MatchedReportRow) :=
  match (workbook.find? fun s ↦ decide (s.1 = "Matched".toList)).map Prod.snd with
  | none => .error ("No 'Matched' sheet found in the uploaded file — upload a report " ++
      "downloaded from Auto reconciliation or Manual reconciliation.").toList
  | some [] => .ok []
  | some (header :: rows) =>
      let columns := "'Matched' sheet is missing expected column(s): path, bucket".toList
      if header = [] then .ok []
      else
        match matchedPathHeaders.find? fun h ↦ (colIndex T header h).isSome with
        | none => .error columns
        | some pathCol =>
            if (colIndex T header "bucket".toList).isNone then .error columns
            else .ok (rows.filterMap (parseMatchedRow T env pathCol header))

/-! ## What was written -/

section Report

variable {T : Tables} {env : Env} {query : Str → Str → Str} {formats : Formats} {gb : ℕ → Cell}
  {idCell : κ → Cell} {provider : Option Str}

theorem rows_of_writeSheet {α : Type*} {headers : List Str} {row : α → Except Str (List Cell)}
    {written : α → List Cell} (hrow : ∀ a cells, row a = .ok cells → cells = written a)
    {files : List α} {rows : List (List Cell)} (h : writeSheet headers row files = .ok rows) :
    rows = headers.map .text :: files.map written := by
  obtain ⟨cells, hcells, hpure⟩ := bind_eq_ok_iff.mp h
  obtain rfl := Except.ok.inj hpure
  rw [map_of_mapM_eq_ok hrow hcells]

/-- The report holds the sheet of the orphans, and the matched files under their
stored values. -/
theorem sheets_of_report {result : ReconciliationResult κ} {workbook : Workbook}
    (h : generateReconciliationReport T env query formats gb idCell provider result =
      .ok workbook) :
    ∃ others rows, DeletableSheet.orphan.write T env query formats provider result.orphan =
        .ok rows ∧ workbook = DeletableSheet.orphan.workbook others rows ∧
      others "Matched".toList = matchedHeaders.map .text :: result.matched.map fun file ↦
        matchedRow formats idCell (signedUrl T env query provider file.bucket file.path) file := by
  obtain ⟨matchedRows, hmatched, h⟩ := bind_eq_ok_iff.mp h
  obtain ⟨missingRows, _, h⟩ := bind_eq_ok_iff.mp h
  obtain ⟨orphanRows, horphan, h⟩ := bind_eq_ok_iff.mp h
  obtain ⟨protectedRows, _, h⟩ := bind_eq_ok_iff.mp h
  obtain rfl := Except.ok.inj h
  have hrow : ∀ (file : MatchedFile κ) cells,
      (buildObjectPresignedUrl T env query provider file.bucket file.path).map
        (fun u ↦ matchedRow formats idCell u file) = .ok cells →
      cells = matchedRow formats idCell
        (signedUrl T env query provider file.bucket file.path) file := by
    intro file cells hcells
    unfold buildObjectPresignedUrl at hcells
    cases hclient : getS3Client env provider with
    | error e =>
        rw [hclient] at hcells
        exact nomatch hcells
    | ok config =>
        rw [hclient] at hcells
        exact (Except.ok.inj hcells).symm
  refine ⟨fun name ↦ if name = "Matched".toList then matchedRows
    else if name = "Missing".toList then missingRows
    else if name = "Summary".toList then reconciliationSummaryRows gb result
    else protectedRows, orphanRows, horphan, rfl, ?_⟩
  exact rows_of_writeSheet hrow hmatched

/-! ## What is read from it -/

theorem plain_matchedHeaders : ∀ s ∈ matchedHeaders, strip s = s ∧ ∀ c ∈ s, isAscii c = true := by
  decide

theorem parseMatchedReport_workbook {others : Str → List (List Cell)}
    {rows orphanRows : List (List Cell)}
    (hothers : others "Matched".toList = matchedHeaders.map .text :: rows) :
    parseMatchedReport T env (DeletableSheet.orphan.workbook others orphanRows) =
      .ok (rows.filterMap (parseMatchedRow T env "value (as stored in db)".toList
        (matchedHeaders.map .text))) := by
  have hsheet : ((DeletableSheet.orphan.workbook others orphanRows).find? fun s ↦
      decide (s.1 = "Matched".toList)).map Prod.snd =
      some (matchedHeaders.map .text :: rows) := by
    rw [← hothers]
    rfl
  have hpath : (matchedPathHeaders.find? fun h ↦
      (colIndex T (matchedHeaders.map .text) h).isSome) =
      some "value (as stored in db)".toList := by
    simp only [colIndex_text _ plain_matchedHeaders]
    decide
  have hbucket : (colIndex T (matchedHeaders.map .text) "bucket".toList).isNone = false := by
    rw [colIndex_text _ plain_matchedHeaders]
    decide
  have hheader : matchedHeaders.map Cell.text ≠ [] := by simp [matchedHeaders]
  rw [parseMatchedReport, hsheet]
  simp only [if_neg hheader, hpath, hbucket, Bool.false_eq_true, if_false]

/-- What reading the report gives for a matched file. -/
def reportedMatch (formats : Formats) (idCell : κ → Cell) (file : MatchedFile κ) :
    MatchedReportRow where
  rawValue := .ofOption file.rawValue
  bucket := .text file.bucket
  key := file.path
  sizeMb := formats.mb file.size
  lastModified :=
    if formats.naive file.lastModified = .blank then none
    else some (formats.naive file.lastModified).printed
  table := .text file.table
  column := .text file.column
  rowId := rowIdCell idCell file.id

/-- The stored value of the file leads to the key it was matched under. -/
structure MatchedFile.Resolves (T : Tables) (env : Env) (file : MatchedFile κ) : Prop where
  value : ∃ value, file.rawValue = some value ∧
    (splitObjectReference T env value).key = file.path
  path_ne_nil : file.path ≠ []
  bucket_ne_nil : file.bucket ≠ []

theorem key_splitObjectReference_nil : (splitObjectReference T env []).key = [] := by
  rw [splitObjectReference_bare rfl]
  rfl

theorem parseMatchedRow_matchedRow {file : MatchedFile κ} (h : file.Resolves T env) (url : Str) :
    parseMatchedRow T env "value (as stored in db)".toList (matchedHeaders.map .text)
        (matchedRow formats idCell url file) =
      some (reportedMatch formats idCell file) := by
  obtain ⟨value, hvalue, hkey⟩ := h.value
  have hne : value ≠ [] := by
    rintro rfl
    exact h.path_ne_nil (hkey ▸ key_splitObjectReference_nil)
  have hcell : ∀ {name : Str} {i : ℕ}, columnOf matchedHeaders name = some i →
      cellValue T (matchedHeaders.map .text) (matchedRow formats idCell url file) name =
        (matchedRow formats idCell url file)[i]?.getD .blank :=
    fun hcolumn ↦ cellValue_text _ plain_matchedHeaders hcolumn
  unfold parseMatchedRow
  rw [hcell (i := 0) (by decide), hcell (i := 1) (by decide), hcell (i := 3) (by decide),
    hcell (i := 2) (by decide), hcell (i := 4) (by decide), hcell (i := 5) (by decide),
    hcell (i := 6) (by decide)]
  -- The key is not a cell of the row; it comes from the first one.
  simp [matchedRow, rawValueCell, hvalue, Cell.truthy, hne, h.bucket_ne_nil, Cell.printed, hkey,
    h.path_ne_nil, reportedMatch, Cell.ofOption]

end Report

/-! ## The matched files of a run -/

/-- A store lists its objects by names that are not empty. -/
def ListsNamed (bucketResults : List (List StorageObject)) : Prop :=
  ∀ obj ∈ bucketResults.flatten, obj.bucket ≠ [] ∧ obj.key ≠ []

/-- What a sheet holds is read back as it was written. -/
structure KeepsCells (readBack : Cell → Cell) : Prop where
  blank : readBack .blank = .blank
  text : ∀ s, readBack (.text s) = .text s
  number : ∀ printed isZero, readBack (.number printed isZero) = .number printed isZero

theorem KeepsCells.reread {readBack : Cell → Cell} (h : KeepsCells readBack)
    (workbook : Workbook) : workbook.reread readBack = workbook := by
  have hcell : readBack = id := by
    funext c
    cases c with
    | blank => exact h.blank
    | text s => exact h.text s
    | number printed isZero => exact h.number printed isZero
  simp [Workbook.reread, hcell]

section Result

variable {T : Tables} {env : Env} {request : ReconciliationRequest} {buckets : List Str}
  {data : ScanData κ}

theorem resolves_of_mem_matched (hnamed : ListsNamed data.bucketResults) {file : MatchedFile κ}
    (hfile : file ∈ (reconcile T env request buckets data).matched) : file.Resolves T env := by
  obtain ⟨k, ref, obj, href, hobj, rfl⟩ := mem_matched.mp hfile
  have hscope := List.find?_some href
  have hlisted := List.find?_some hobj
  simp only [Bool.and_eq_true, decide_eq_true_eq] at hscope hlisted
  obtain ⟨hbucket, hkey⟩ := hnamed obj (List.mem_reverse.mp (List.mem_of_find?_eq_some hobj))
  exact ⟨⟨ref.value, rfl, hscope.2⟩, hlisted ▸ hkey, hbucket⟩

/-- The report is read as the matched files of the reconciliation it was written for. -/
theorem parseMatchedReport_reread {query : Str → Str → Str} {formats : Formats} {gb : ℕ → Cell}
    {idCell : κ → Cell} {provider : Option Str} {readBack : Cell → Cell} {workbook : Workbook}
    (hkeeps : KeepsCells readBack) (hnamed : ListsNamed data.bucketResults)
    (hreport : generateReconciliationReport T env query formats gb idCell provider
      (reconcile T env request buckets data) = .ok workbook) :
    parseMatchedReport T env (workbook.reread readBack) =
      .ok ((reconcile T env request buckets data).matched.map (reportedMatch formats idCell)) := by
  obtain ⟨others, rows, _, rfl, hmatched⟩ := sheets_of_report hreport
  rw [hkeeps.reread, parseMatchedReport_workbook hmatched, List.filterMap_map]
  congr 1
  rw [filterMap_eq_map_iff]
  intro file hfile
  exact parseMatchedRow_matchedRow (resolves_of_mem_matched hnamed hfile) _

end Result

/-! ## One matched photo -/

def scolaLink : Str := "https://sgp1.digitaloceanspaces.com/scola/a%20b.png?v=2".toList

def linkedPhoto : ScanData ℕ := photoReads "scola".toList "a b.png".toList scolaLink

def photoIdCell (id : ℕ) : Cell := .number (Nat.repr id).toList (id == 0)

theorem parseMatchedReport_reread_photo :
    ∃ workbook, generateReconciliationReport Tables.ascii sgp1Env plainQuery plainFormats
        (fun _ ↦ .blank) photoIdCell none
        (reconcile Tables.ascii sgp1Env (photoRequest "scola".toList) ["scola".toList]
          linkedPhoto) = .ok workbook ∧
      parseMatchedReport Tables.ascii sgp1Env (workbook.reread id) =
        .ok [⟨.text scolaLink, .text "scola".toList, "a b.png".toList, .blank, none,
          .text "users".toList, .text "photo".toList, photoIdCell 1⟩] := by
  have hkeeps : KeepsCells id := ⟨rfl, fun _ ↦ rfl, fun _ _ ↦ rfl⟩
  have hnamed : ListsNamed linkedPhoto.bucketResults := by
    intro obj hobj
    obtain rfl := List.mem_singleton.mp hobj
    exact ⟨by decide, by decide⟩
  have hmatched : (reconcile Tables.ascii sgp1Env (photoRequest "scola".toList)
      ["scola".toList] linkedPhoto).matched.map (reportedMatch plainFormats photoIdCell) =
        [⟨.text scolaLink, .text "scola".toList, "a b.png".toList, .blank, none,
          .text "users".toList, .text "photo".toList, photoIdCell 1⟩] := by decide
  obtain ⟨workbook, hreport⟩ : ∃ workbook, generateReconciliationReport Tables.ascii sgp1Env
      plainQuery plainFormats (fun _ ↦ .blank) photoIdCell none (reconcile Tables.ascii sgp1Env
        (photoRequest "scola".toList) ["scola".toList] linkedPhoto) = .ok workbook := ⟨_, rfl⟩
  refine ⟨workbook, hreport, ?_⟩
  rw [← hmatched]
  exact parseMatchedReport_reread hkeeps hnamed hreport

end StorageReconciler
