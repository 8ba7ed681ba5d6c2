import Mathlib.Data.List.Nodup
import StorageReconciler.CopyObjects
import StorageReconciler.Sheets

/-!
# The migration report

A request to copy objects is checked and carried out, and a report with one row
for each item says what came of it.  Reading the report back gives the objects
that may be deleted from the old provider.
-/

namespace StorageReconciler

open Strings

structure CopyItem where
  bucket : Str
  key : Str
  sizeMb : Cell
  path : Option Str
  table : Option Str
  column : Option Str
  rowId : Cell

structure CopyBody where
  items : List CopyItem
  sourceProvider : Str
  destProvider : Str
  destBucket : Option Str
  overwrite : Bool
  makePublic : Bool

/-- `not value`, for an optional text. -/
def isUnset (value : Option Str) : Bool := value.getD [] == []

def validateCopyBody (body : CopyBody) : Except Str Unit := do
  if body.items.length = 0 then
    throw "No items to copy".toList
  if body.sourceProvider = body.destProvider then
    if isUnset body.destBucket then
      throw ("Source and destination provider are the same — " ++
        "set a destination bucket to copy into").toList
    if body.items.any fun item ↦ decide (some item.bucket = body.destBucket) then
      throw ("Destination bucket must be different from the source bucket when copying " ++
        "within the same provider").toList

/-- The call that carries the request out; `store` says which store the client of a
provider talks to. -/
def copyCallOf {σ : Type*} (store : Str → σ) (body : CopyBody) : CopyCall σ where
  items := body.items.map fun item ↦ (item.bucket, item.key)
  sourceProvider := store body.sourceProvider
  destProvider := store body.destProvider
  destBucket := body.destBucket
  overwrite := body.overwrite
  makePublic := body.makePublic
  destKeyFn := none
  destBucketFn := none

/-! ## Writing -/

def copyStatusText (result : CopyResult) : Str :=
  if !result.success then "Failed".toList
  else if result.skipped then "Skipped".toList
  else "Copied".toList

def copyReportHeaders : List Str :=
  ["Source Path", "Bucket", "Key", "Destination URL", "Size (MB)", "Table", "Column", "Row ID",
    "Status", "Error"].map String.toList

/-- The row of an item, with a signed link to its destination. -/
def copyReportRow (presign : Str → Str → Str → Str) (destProvider : Str) (item : CopyItem)
    (result : CopyResult) : List Cell :=
  [.ofOption item.path, .text result.bucket, .text result.key,
    .text (if result.destBucket = [] then []
      else presign destProvider result.destBucket result.key),
    item.sizeMb, .ofOption item.table, .ofOption item.column,
    if item.rowId = .blank then .text [] else item.rowId,
    .text (copyStatusText result), .ofOption result.error]

def buildCopyReport (presign : Str → Str → Str → Str) (body : CopyBody)
    (results : List CopyResult) : Workbook :=
  [("Copied".toList, copyReportHeaders.map .text ::
    (body.items.zip results).map fun p ↦ copyReportRow presign body.destProvider p.1 p.2)]

/-! ## Reading -/

structure DeletableRow where
  bucket : Cell
  key : Cell
  destinationUrl : Cell
  sizeMb : Cell
  status : Str
  deriving DecidableEq

structure ExcludedRow where
  bucket : Cell
  key : Cell
  destinationUrl : Cell
  status : Str
  reason : Cell
  deriving DecidableEq

structure CopyReportStats where
  total : ℕ
  eligible : ℕ
  copied : ℕ
  skipped : ℕ
  failed : ℕ
  incomplete : ℕ
  deriving DecidableEq

/-- `stats[status] += 1`, for one of the two statuses, and the row is eligible. -/
def CopyReportStats.countEligible (stats : CopyReportStats) (status : Str) : CopyReportStats :=
  if status = "copied".toList then
    { stats with copied := stats.copied + 1, eligible := stats.eligible + 1 }
  else { stats with skipped := stats.skipped + 1, eligible := stats.eligible + 1 }

structure CopyDeleteDetails where
  results : List DeletableRow
  stats : CopyReportStats
  excluded : List ExcludedRow
  deriving DecidableEq

def CopyDeleteDetails.empty : CopyDeleteDetails := ⟨[], ⟨0, 0, 0, 0, 0, 0⟩, []⟩

/-- `", ".join(texts)` -/
def joinComma (texts : List Str) : Str := ", ".toList.intercalate texts

def parseCopyRow (T : Tables) (header : List Cell) (acc : CopyDeleteDetails) (row : List Cell) :
    CopyDeleteDetails :=
  let value name := cellValue T header row name
  if row.all (· == .blank) then acc
  else
    let stats := { acc.stats with total := acc.stats.total + 1 }
    let status := lower T (strip (value "status".toList).strOrEmpty)
    let bucket := value "bucket".toList
    let key := value "key".toList
    let url := value "destination url".toList
    if status ≠ "copied".toList ∧ status ≠ "skipped".toList then
      let reason := value "error".toList
      { acc with
        stats := { stats with failed := stats.failed + 1 }
        excluded := acc.excluded ++ [⟨bucket, key, url, (value "status".toList).strOrEmpty,
          if reason.truthy then reason
          else .text "Migration status is not Copied or Skipped".toList⟩] }
    else if !bucket.truthy || !key.truthy || !url.truthy then
      let missing := [("Bucket".toList, bucket), ("Key".toList, key),
        ("Destination URL".toList, url)].filter fun v ↦ !v.2.truthy
      { acc with
        stats := { stats with incomplete := stats.incomplete + 1 }
        excluded := acc.excluded ++ [⟨bucket, key, url, capitalize status,
          .text ("Missing required value(s): ".toList ++ joinComma (missing.map Prod.fst))⟩] }
    else
      { acc with
        results := acc.results ++ [⟨bucket, key, url, value "size (mb)".toList,
          capitalize status⟩]
        stats := stats.countEligible status }

def parseCopyReportForDeleteDetails (T : Tables) (workbook : Workbook) :
    Except Str CopyDeleteDetails :=
  match workbook.find? fun s ↦ decide (s.1 = "Copied".toList) with
  | none => .error ("No 'Copied' sheet found — upload a report generated by storage " ++
      "migration").toList
  | some (_, []) => .ok .empty
  | some (_, header :: rows) =>
      if header = [] then .ok .empty
      else
        let missing := ["bucket", "key", "destination url", "status"].filter fun name ↦
          (colIndex T header name.toList).isNone
        if missing = [] then .ok (rows.foldl (parseCopyRow T header) .empty)
        else .error ("'Copied' sheet is missing expected column(s): ".toList ++
          joinComma (missing.map String.toList))

/-! ## What the report allows to be deleted -/

/-- The object of a row that may be deleted. -/
structure IsDeletable (T : Tables) (header cells : List Cell) (row : DeletableRow) : Prop where
  status : lower T (strip (cellValue T header cells "status".toList).strOrEmpty) =
      "copied".toList ∨
    lower T (strip (cellValue T header cells "status".toList).strOrEmpty) = "skipped".toList
  bucket : row.bucket = cellValue T header cells "bucket".toList
  key : row.key = cellValue T header cells "key".toList
  bucket_truthy : row.bucket.truthy = true
  key_truthy : row.key.truthy = true

theorem results_parseCopyRow (T : Tables) (header : List Cell) (acc : CopyDeleteDetails)
    (cells : List Cell) : (parseCopyRow T header acc cells).results = acc.results ∨
      ∃ row, IsDeletable T header cells row ∧
        (parseCopyRow T header acc cells).results = acc.results ++ [row] := by
  unfold parseCopyRow
  dsimp only
  split_ifs with hblank hstatus hreason hvalues
  · exact .inl rfl
  · exact .inl rfl
  · exact .inl rfl
  · exact .inl rfl
  · simp only [Bool.or_eq_true, Bool.not_eq_eq_eq_not, Bool.not_true, not_or,
      Bool.not_eq_false] at hvalues
    exact .inr ⟨_, ⟨by tauto, rfl, rfl, hvalues.1.1, hvalues.1.2⟩, rfl⟩

theorem mem_foldl_parseCopyRow {T : Tables} {header : List Cell} {rows : List (List Cell)}
    {acc : CopyDeleteDetails} {row : DeletableRow}
    (h : row ∈ (rows.foldl (parseCopyRow T header) acc).results) :
    row ∈ acc.results ∨ ∃ cells ∈ rows, IsDeletable T header cells row := by
  induction rows generalizing acc with
  | nil => exact .inl h
  | cons cells rows ih =>
      rcases ih h with hacc | ⟨cells', hcells', hrow⟩
      · rcases results_parseCopyRow T header acc cells with hsame | ⟨row', hrow', hresults⟩
        · exact .inl (hsame ▸ hacc)
        · rw [hresults, List.mem_append, List.mem_singleton] at hacc
          rcases hacc with hacc | rfl
          · exact .inl hacc
          · exact .inr ⟨cells, List.mem_cons_self, hrow'⟩
      · exact .inr ⟨cells', List.mem_cons_of_mem cells hcells', hrow⟩

theorem copyReportHeaders_index {T : Tables} {i j : ℕ} {s name : Str}
    (hi : copyReportHeaders[i]? = some s) (hname : lower T (strip s) = name)
    (hj : (copyReportHeaders.map fun s ↦ s.map Char.toLower)[j]? = some name) : i = j := by
  have hmem := List.mem_of_getElem? hi
  have hplain : ∀ s ∈ copyReportHeaders, strip s = s ∧ ∀ c ∈ s, isAscii c = true := by
    decide
  rw [(hplain s hmem).1, lower_of_ascii T (hplain s hmem).2] at hname
  have hnodup : List.Nodup (copyReportHeaders.map fun s ↦ s.map Char.toLower) := by
    decide
  have hi' : (copyReportHeaders.map fun s ↦ s.map Char.toLower)[i]? = some name := by
    rw [List.getElem?_map, hi, Option.map_some, hname]
  obtain ⟨hlt, hi'⟩ := List.getElem?_eq_some_iff.mp hi'
  obtain ⟨hlt', hj⟩ := List.getElem?_eq_some_iff.mp hj
  exact hnodup.getElem_inj_iff.mp (hi'.trans hj.symm)

theorem success_of_status {T : Tables} {result : CopyResult}
    (h : lower T (strip (copyStatusText result)) = "copied".toList ∨
      lower T (strip (copyStatusText result)) = "skipped".toList) : result.success = true := by
  by_contra hfailed
  have htext : copyStatusText result = "Failed".toList := by
    rw [copyStatusText, if_pos (by simpa using hfailed)]
  have hstrip : strip "Failed".toList = "Failed".toList := by decide
  rw [htext, hstrip, lower_of_ascii T (by decide)] at h
  exact absurd h (by decide)

theorem getElem?_of_cellValue {T : Tables} {readBack : Cell → Cell} {cells : List Cell}
    (hread : ∀ c, readBack c = c ∨ readBack c = .blank) {name : Str} (j : ℕ)
    (hj : (copyReportHeaders.map fun s ↦ s.map Char.toLower)[j]? = some name)
    (htruthy : (cellValue T ((copyReportHeaders.map .text).map readBack) (cells.map readBack)
      name).truthy = true) :
    cells[j]? = some (cellValue T ((copyReportHeaders.map .text).map readBack)
      (cells.map readBack) name) := by
  obtain ⟨i, s, hi, hname, hcell⟩ := cellValue_reread hread htruthy
  obtain rfl := copyReportHeaders_index hi hname hj
  exact hcell

/-- Whatever the report allows to be deleted stands in the row of an item. -/
theorem exists_isDeletable {T : Tables} {presign : Str → Str → Str → Str} {body : CopyBody}
    {results : List CopyResult} {readBack : Cell → Cell} {details : CopyDeleteDetails}
    (h : parseCopyReportForDeleteDetails T
      ((buildCopyReport presign body results).reread readBack) = .ok details)
    {row : DeletableRow} (hrow : row ∈ details.results) :
    ∃ p ∈ body.items.zip results, IsDeletable T ((copyReportHeaders.map .text).map readBack)
      ((copyReportRow presign body.destProvider p.1 p.2).map readBack) row := by
  have hparse : parseCopyReportForDeleteDetails T
      ((buildCopyReport presign body results).reread readBack) =
        (let missing := ["bucket", "key", "destination url", "status"].filter fun name ↦
          (colIndex T ((copyReportHeaders.map .text).map readBack) name.toList).isNone
        if missing = [] then .ok ((((body.items.zip results).map fun p ↦
          copyReportRow presign body.destProvider p.1 p.2).map fun cells ↦
            cells.map readBack).foldl
              (parseCopyRow T ((copyReportHeaders.map .text).map readBack)) .empty)
        else .error ("'Copied' sheet is missing expected column(s): ".toList ++
          joinComma (missing.map String.toList))) := rfl
  rw [hparse] at h
  dsimp only at h
  split_ifs at h with hmissing
  obtain rfl := Except.ok.inj h
  obtain ⟨cells, hcells, hdeletable⟩ :=
    (mem_foldl_parseCopyRow hrow).resolve_left List.not_mem_nil
  obtain ⟨_, hwritten, rfl⟩ := List.mem_map.mp hcells
  obtain ⟨p, hzip, rfl⟩ := List.mem_map.mp hwritten
  exact ⟨p, hzip, hdeletable⟩

theorem exists_of_mem_deletable {T : Tables} {presign : Str → Str → Str → Str} {body : CopyBody}
    {results : List CopyResult} {readBack : Cell → Cell} {details : CopyDeleteDetails}
    (hread : ∀ c, readBack c = c ∨ readBack c = .blank)
    (h : parseCopyReportForDeleteDetails T
      ((buildCopyReport presign body results).reread readBack) = .ok details)
    {row : DeletableRow} (hrow : row ∈ details.results) :
    ∃ (i : ℕ) (item : CopyItem) (result : CopyResult), body.items[i]? = some item ∧
      results[i]? = some result ∧ result.success = true ∧ row.bucket = .text result.bucket ∧
      row.key = .text result.key := by
  obtain ⟨⟨item, result⟩, hzip, hdeletable⟩ := exists_isDeletable h hrow
  obtain ⟨i, hi⟩ := List.mem_iff_getElem?.mp hzip
  obtain ⟨hitem, hresult⟩ := List.getElem?_zip_eq_some.mp hi
  refine ⟨i, item, result, hitem, hresult, ?_, ?_, ?_⟩
  · have htruthy := Cell.truthy_of_strOrEmpty (fun hempty ↦ by
      have hstatus := hdeletable.status
      have hnil : lower T (strip []) = [] := rfl
      rw [hempty, hnil] at hstatus
      exact absurd hstatus (by decide))
    have hname : (copyReportHeaders.map fun s ↦ s.map Char.toLower)[8]? =
        some "status".toList := rfl
    have hcell := getElem?_of_cellValue hread 8 hname htruthy
    have hstatus := hdeletable.status
    rw [← Option.some.inj hcell] at hstatus
    exact success_of_status hstatus
  · have htruthy := hdeletable.bucket ▸ hdeletable.bucket_truthy
    rw [hdeletable.bucket]
    exact (Option.some.inj (getElem?_of_cellValue hread 1 rfl htruthy)).symm
  · have htruthy := hdeletable.key ▸ hdeletable.key_truthy
    rw [hdeletable.key]
    exact (Option.some.inj (getElem?_of_cellValue hread 2 rfl htruthy)).symm

end StorageReconciler
