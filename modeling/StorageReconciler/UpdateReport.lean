import StorageReconciler.CopyReport

/-!
# Reading a migration report for an update

The rows of a migration report from which the database can be updated: those of
items that were copied or skipped, with nothing missing.
-/

namespace StorageReconciler

open Strings

structure DbUpdateRow where
  sourcePath : Cell
  destinationUrl : Cell
  table : Cell
  column : Cell
  rowId : Cell
  deriving DecidableEq

/-- `value is None or value == ""` holds of none of the values. -/
def DbUpdateRow.isComplete (row : DbUpdateRow) : Bool :=
  [row.sourcePath, row.destinationUrl, row.table, row.column, row.rowId].all fun value ↦
    value != .blank && value != .text []

structure DbUpdateStats where
  total : ℕ
  eligible : ℕ
  failed : ℕ
  incomplete : ℕ
  deriving DecidableEq

@[ext] structure DbUpdateDetails where
  results : List DbUpdateRow
  stats : DbUpdateStats
  deriving DecidableEq

def DbUpdateDetails.empty : DbUpdateDetails := ⟨[], ⟨0, 0, 0, 0⟩⟩

def dbUpdateRowOf (T : Tables) (header row : List Cell) : DbUpdateRow where
  sourcePath := cellValue T header row "source path".toList
  destinationUrl := cellValue T header row "destination url".toList
  table := cellValue T header row "table".toList
  column := cellValue T header row "column".toList
  rowId := cellValue T header row "row id".toList

def parseDbUpdateRow (T : Tables) (header : List Cell) (acc : DbUpdateDetails)
    (row : List Cell) : DbUpdateDetails :=
  if row.all (· == .blank) then acc
  else
    let stats := { acc.stats with total := acc.stats.total + 1 }
    let status := lower T (strip (cellValue T header row "status".toList).strOrEmpty)
    if status ≠ "copied".toList ∧ status ≠ "skipped".toList then
      { acc with stats := { stats with failed := stats.failed + 1 } }
    else
      let item := dbUpdateRowOf T header row
      if item.isComplete then
        { results := acc.results ++ [item]
          stats := { stats with eligible := stats.eligible + 1 } }
      else { acc with stats := { stats with incomplete := stats.incomplete + 1 } }

def parseCopyReportForDbUpdate (T : Tables) (workbook : Workbook) : Except Str DbUpdateDetails :=
  match workbook.find? fun s ↦ decide (s.1 = "Copied".toList) with
  | none => .error ("No 'Copied' sheet found — upload a report generated by storage " ++
      "migration").toList
  | some (_, []) => .ok .empty
  | some (_, header :: rows) =>
      if header = [] then .ok .empty
      else
        let missing := ["source path", "destination url", "table", "column", "row id",
          "status"].filter fun name ↦ (colIndex T header name.toList).isNone
        if missing = [] then .ok (rows.foldl (parseDbUpdateRow T header) .empty)
        else .error ("'Copied' sheet is missing expected column(s): ".toList ++
          joinComma (missing.map String.toList))

/-! ## What is read of a report that was written -/

/-- A cell is read back as it was written or not at all, the names of the columns and
the two good statuses always. -/
structure ReadsBack (readBack : Cell → Cell) : Prop where
  kept : ∀ c, readBack c = c ∨ readBack c = .blank
  words : ∀ s ∈ copyReportHeaders ++ ["Copied".toList, "Skipped".toList],
    readBack (.text s) = .text s

theorem readBackCell_reads : ReadsBack readBackCell where
  kept c := by
    unfold readBackCell
    split_ifs <;> simp
  words := by decide

/-- What is read of the row of an item. -/
def reportedRow (readBack : Cell → Cell) (presign : Str → Str → Str → Str) (destProvider : Str)
    (item : CopyItem) (result : CopyResult) : DbUpdateRow where
  sourcePath := readBack (.ofOption item.path)
  destinationUrl := readBack (.text (if result.destBucket = [] then []
    else presign destProvider result.destBucket result.key))
  table := readBack (.ofOption item.table)
  column := readBack (.ofOption item.column)
  rowId := readBack (if item.rowId = .blank then .text [] else item.rowId)

/-- The row to update from, where the item succeeded and nothing is missing. -/
def reportedUpdate (readBack : Cell → Cell) (presign : Str → Str → Str → Str)
    (destProvider : Str) (item : CopyItem) (result : CopyResult) : Option DbUpdateRow :=
  if result.success && (reportedRow readBack presign destProvider item result).isComplete then
    some (reportedRow readBack presign destProvider item result)
  else none

section Written

variable {T : Tables} {readBack : Cell → Cell} {presign : Str → Str → Str → Str}
  {destProvider : Str} {item : CopyItem} {result : CopyResult}

theorem plain_copyReportHeaders :
    ∀ s ∈ copyReportHeaders, strip s = s ∧ ∀ c ∈ s, isAscii c = true := by decide

theorem ReadsBack.headers (h : ReadsBack readBack) :
    (copyReportHeaders.map .text).map readBack = copyReportHeaders.map .text := by
  rw [List.map_map]
  exact List.map_congr_left fun s hs ↦ h.words s (List.mem_append_left _ hs)

theorem cellValue_copyReportRow {name : Str} {i : ℕ}
    (hcolumn : columnOf copyReportHeaders name = some i) :
    cellValue T (copyReportHeaders.map .text)
        ((copyReportRow presign destProvider item result).map readBack) name =
      (((copyReportRow presign destProvider item result)[i]?).map readBack).getD .blank := by
  rw [cellValue_text _ plain_copyReportHeaders hcolumn, List.getElem?_map]

theorem dbUpdateRowOf_copyReportRow :
    dbUpdateRowOf T (copyReportHeaders.map .text)
        ((copyReportRow presign destProvider item result).map readBack) =
      reportedRow readBack presign destProvider item result := by
  have hsource : columnOf copyReportHeaders "source path".toList = some 0 := by decide
  have hurl : columnOf copyReportHeaders "destination url".toList = some 3 := by decide
  have htable : columnOf copyReportHeaders "table".toList = some 5 := by decide
  have hcolumn : columnOf copyReportHeaders "column".toList = some 6 := by decide
  have hrowId : columnOf copyReportHeaders "row id".toList = some 7 := by decide
  rw [dbUpdateRowOf, cellValue_copyReportRow hsource, cellValue_copyReportRow hurl,
    cellValue_copyReportRow htable, cellValue_copyReportRow hcolumn,
    cellValue_copyReportRow hrowId]
  rfl

variable (T presign destProvider item result) in
theorem status_copyReportRow (h : ReadsBack readBack) :
    (lower T (strip (cellValue T (copyReportHeaders.map .text)
        ((copyReportRow presign destProvider item result).map readBack)
        "status".toList).strOrEmpty) = "copied".toList ∨
      lower T (strip (cellValue T (copyReportHeaders.map .text)
        ((copyReportRow presign destProvider item result).map readBack)
        "status".toList).strOrEmpty) = "skipped".toList) ↔ result.success = true := by
  have hcolumn : columnOf copyReportHeaders "status".toList = some 8 := by decide
  have hcell : cellValue T (copyReportHeaders.map .text)
      ((copyReportRow presign destProvider item result).map readBack) "status".toList =
        readBack (.text (copyStatusText result)) := by
    rw [cellValue_copyReportRow hcolumn]
    rfl
  rw [hcell]
  constructor
  · intro hstatus
    rcases h.kept (.text (copyStatusText result)) with hkept | hblank
    · rw [hkept] at hstatus
      exact success_of_status hstatus
    · have hnil : lower T (strip []) = [] := rfl
      rw [hblank, Cell.strOrEmpty, hnil] at hstatus
      exact absurd hstatus (by decide)
  · intro hsuccess
    have hstrip : strip "Copied".toList = "Copied".toList := by decide
    have hstrip' : strip "Skipped".toList = "Skipped".toList := by decide
    cases hskipped : result.skipped with
    | true =>
        right
        rw [copyStatusText, hsuccess, hskipped]
        simp only [Bool.not_true, Bool.false_eq_true, if_false, if_true]
        rw [h.words "Skipped".toList (by simp), Cell.strOrEmpty, hstrip',
          lower_of_ascii T (by decide)]
        decide
    | false =>
        left
        rw [copyStatusText, hsuccess, hskipped]
        simp only [Bool.not_true, Bool.false_eq_true, if_false]
        rw [h.words "Copied".toList (by simp), Cell.strOrEmpty, hstrip,
          lower_of_ascii T (by decide)]
        decide

theorem cellValue_of_blank {header row : List Cell} {name : Str}
    (h : row.all (· == .blank) = true) : cellValue T header row name = .blank := by
  unfold cellValue
  cases colIndex T header name with
  | none => rfl
  | some i =>
      cases hcell : row[i]? with
      | none => simp [hcell]
      | some c =>
          have hc := List.all_eq_true.mp h c (List.mem_of_getElem? hcell)
          simpa [hcell] using hc

theorem results_parseDbUpdateRow (h : ReadsBack readBack) (acc : DbUpdateDetails) :
    (parseDbUpdateRow T (copyReportHeaders.map .text) acc
        ((copyReportRow presign destProvider item result).map readBack)).results =
      acc.results ++ (reportedUpdate readBack presign destProvider item result).toList := by
  have hstatus := status_copyReportRow T presign destProvider item result h
  unfold parseDbUpdateRow reportedUpdate
  simp only [dbUpdateRowOf_copyReportRow]
  cases hsuccess : result.success with
  | false =>
      have hfailed := mt hstatus.mp (by simp [hsuccess])
      rw [not_or] at hfailed
      simp only [Bool.false_and, Bool.false_eq_true, if_false, Option.toList_none, List.append_nil]
      rw [if_pos hfailed]
      split_ifs <;> rfl
  | true =>
      have hgood := hstatus.mpr hsuccess
      have hblank : ¬ ((copyReportRow presign destProvider item result).map readBack).all
          (· == .blank) = true := by
        intro hblank
        have hnil : lower T (strip []) = [] := rfl
        rw [cellValue_of_blank hblank, Cell.strOrEmpty, hnil] at hgood
        exact absurd hgood (by decide)
      rw [if_neg hblank, if_neg (by tauto)]
      simp only [Bool.true_and]
      split_ifs
      · rfl
      · simp

theorem results_foldl_parseDbUpdateRow (h : ReadsBack readBack) (destProvider : Str)
    (rows : List (CopyItem × CopyResult)) (acc : DbUpdateDetails) :
    (((rows.map fun p ↦ copyReportRow presign destProvider p.1 p.2).map
        (List.map readBack)).foldl
      (parseDbUpdateRow T (copyReportHeaders.map .text)) acc).results =
      acc.results ++ rows.filterMap fun p ↦
        reportedUpdate readBack presign destProvider p.1 p.2 := by
  induction rows generalizing acc with
  | nil => simp
  | cons p rows ih =>
      rw [List.map_cons, List.map_cons, List.foldl_cons]
      apply (ih _).trans
      rw [results_parseDbUpdateRow h, List.append_assoc]
      cases hp : reportedUpdate readBack presign destProvider p.1 p.2 with
      | none => simp [hp]
      | some row => simp [hp]

variable (T presign) in
/-- Reading back what was written gives the rows of the items that succeeded. -/
theorem parseCopyReportForDbUpdate_buildCopyReport (h : ReadsBack readBack) (body : CopyBody)
    (results : List CopyResult) :
    ∃ stats, parseCopyReportForDbUpdate T ((buildCopyReport presign body results).reread readBack) =
      .ok ⟨(body.items.zip results).filterMap fun p ↦
        reportedUpdate readBack presign body.destProvider p.1 p.2, stats⟩ := by
  have hmissing : (["source path", "destination url", "table", "column", "row id",
      "status"].filter fun name ↦
        (colIndex T (copyReportHeaders.map .text) name.toList).isNone) = [] := by
    simp only [colIndex_text _ plain_copyReportHeaders]
    decide
  have hsheet : ((buildCopyReport presign body results).reread readBack).find?
      (fun s ↦ decide (s.1 = "Copied".toList)) = some ("Copied".toList,
        (copyReportHeaders.map .text).map readBack ::
          ((body.items.zip results).map fun p ↦
            copyReportRow presign body.destProvider p.1 p.2).map (List.map readBack)) := rfl
  have hheader : copyReportHeaders.map Cell.text ≠ [] := by decide
  have hparse : parseCopyReportForDbUpdate T
      ((buildCopyReport presign body results).reread readBack) =
        .ok ((((body.items.zip results).map fun p ↦
          copyReportRow presign body.destProvider p.1 p.2).map (List.map readBack)).foldl
            (parseDbUpdateRow T (copyReportHeaders.map .text)) .empty) := by
    rw [parseCopyReportForDbUpdate, hsheet]
    simp only [h.headers, if_neg hheader, hmissing, if_true]
  refine ⟨_, hparse.trans (congrArg Except.ok (DbUpdateDetails.ext ?_ rfl))⟩
  exact results_foldl_parseDbUpdateRow h body.destProvider (body.items.zip results) .empty

end Written

end StorageReconciler
