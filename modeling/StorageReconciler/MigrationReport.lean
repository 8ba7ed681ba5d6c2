import StorageReconciler.DeletableReport
import StorageReconciler.UpdateReport

/-!
# What a migration report leads to

A migration report is read twice, for the objects to delete from the old provider
and for the rows to update in the database.  Each reading gives what the results of
the migration allow, item by item and in their order.
-/

namespace StorageReconciler

open Strings

/-- What `copy_objects` may return for an item, whatever came of it. -/
def CopyCall.IsOutcome {σ : Type*} (call : CopyCall σ) (item : Str × Str)
    (result : CopyResult) : Prop :=
  ∃ success skipped error, result = call.outcome item success skipped error

/-! ## The rows of the report -/

section Rows

variable (presign : Str → Str → Str → Str) (destProvider : Str)

def deletableOf (item : CopyItem) (result : CopyResult) : DeletableRow where
  bucket := .text result.bucket
  key := .text result.key
  destinationUrl := .text (presign destProvider result.destBucket result.key)
  sizeMb := readBackCell item.sizeMb
  status := copyStatusText result

def exclusionOf (result : CopyResult) : ExcludedRow where
  bucket := .text result.bucket
  key := .text result.key
  destinationUrl := .text (presign destProvider result.destBucket result.key)
  status := "Failed".toList
  reason := if isUnset result.error then .text "Migration status is not Copied or Skipped".toList
    else .ofOption result.error

/-- What the row of an item adds to what was read before it. -/
def CopyDeleteDetails.add (acc : CopyDeleteDetails) (item : CopyItem) (result : CopyResult) :
    CopyDeleteDetails :=
  let stats := { acc.stats with total := acc.stats.total + 1 }
  if result.success then
    { acc with
      results := acc.results ++ [deletableOf presign destProvider item result]
      stats := stats.countEligible (if result.skipped then "skipped".toList else "copied".toList) }
  else
    { acc with
      excluded := acc.excluded ++ [exclusionOf presign destProvider result]
      stats := { stats with failed := stats.failed + 1 } }

/-- The value of a text that must be there to be reported. -/
def presentText (value : Option Str) : Option Cell :=
  if isUnset value then none else some (.ofOption value)

/-- The row to update from, where the item succeeded and its path, table, column and
row id are there. -/
def updateOf (item : CopyItem) (result : CopyResult) : Option DbUpdateRow :=
  if result.success ∧ item.rowId ≠ .blank ∧ item.rowId ≠ .text [] then do
    let path ← presentText item.path
    let table ← presentText item.table
    let column ← presentText item.column
    return ⟨path, .text (presign destProvider result.destBucket result.key), table, column,
      item.rowId⟩
  else none

end Rows

section Reading

variable {T : Tables} {presign : Str → Str → Str → Str} {destProvider : Str} {item : CopyItem}
  {result : CopyResult}

theorem readBackCell_ofOption (value : Option Str) :
    readBackCell (.ofOption value) = (presentText value).getD .blank := by
  cases value with
  | none => rfl
  | some s =>
      by_cases hs : s = []
      · subst hs
        rfl
      · have hunset : isUnset (some s) = false := by simpa [isUnset] using hs
        simp [presentText, hunset, Cell.ofOption, readBackCell_text hs]

theorem copyStatusText_ne_nil (result : CopyResult) : copyStatusText result ≠ [] := by
  unfold copyStatusText
  split_ifs <;> decide

theorem cellValue_status (T : Tables) (presign : Str → Str → Str → Str) (destProvider : Str)
    (item : CopyItem) (result : CopyResult) :
    cellValue T (copyReportHeaders.map .text)
        ((copyReportRow presign destProvider item result).map readBackCell) "status".toList =
      .text (copyStatusText result) := by
  have hcolumn : columnOf copyReportHeaders "status".toList = some 8 := by decide
  rw [cellValue_copyReportRow hcolumn]
  exact readBackCell_text (copyStatusText_ne_nil result)

theorem lower_copyStatusText (T : Tables) (result : CopyResult) :
    lower T (strip (copyStatusText result)) = (copyStatusText result).map Char.toLower := by
  have hplain : ∀ s ∈ ["Failed".toList, "Skipped".toList, "Copied".toList],
      strip s = s ∧ ∀ c ∈ s, isAscii c = true := by decide
  have hmem : copyStatusText result ∈ ["Failed".toList, "Skipped".toList, "Copied".toList] := by
    unfold copyStatusText
    split_ifs <;> simp
  rw [(hplain _ hmem).1, lower_of_ascii T (hplain _ hmem).2]

/-- What the readers need of a row. -/
structure IsReportable (presign : Str → Str → Str → Str) (destProvider : Str)
    (result : CopyResult) : Prop where
  bucket : result.bucket ≠ []
  key : result.key ≠ []
  destBucket : result.destBucket ≠ []
  url : presign destProvider result.destBucket result.key ≠ []

variable (T item) in
theorem IsReportable.cells (h : IsReportable presign destProvider result) :
    cellValue T (copyReportHeaders.map .text)
        ((copyReportRow presign destProvider item result).map readBackCell) "bucket".toList =
      .text result.bucket ∧
    cellValue T (copyReportHeaders.map .text)
        ((copyReportRow presign destProvider item result).map readBackCell) "key".toList =
      .text result.key ∧
    cellValue T (copyReportHeaders.map .text)
        ((copyReportRow presign destProvider item result).map readBackCell)
        "destination url".toList =
      .text (presign destProvider result.destBucket result.key) := by
  have hbucket : columnOf copyReportHeaders "bucket".toList = some 1 := by decide
  have hkey : columnOf copyReportHeaders "key".toList = some 2 := by decide
  have hurl : columnOf copyReportHeaders "destination url".toList = some 3 := by decide
  refine ⟨?_, ?_, ?_⟩
  · rw [cellValue_copyReportRow hbucket]
    exact readBackCell_text h.bucket
  · rw [cellValue_copyReportRow hkey]
    exact readBackCell_text h.key
  · rw [cellValue_copyReportRow hurl]
    simp only [copyReportRow, if_neg h.destBucket]
    exact readBackCell_text h.url

theorem reason_copyReportRow (error : Cell)
    (herror : error = cellValue T (copyReportHeaders.map .text)
      ((copyReportRow presign destProvider item result).map readBackCell) "error".toList) :
    (if error.truthy then error
      else .text "Migration status is not Copied or Skipped".toList) =
      (exclusionOf presign destProvider result).reason := by
  have hcolumn : columnOf copyReportHeaders "error".toList = some 9 := by decide
  have hcell : error = readBackCell (.ofOption result.error) := by
    rw [herror, cellValue_copyReportRow hcolumn]
    rfl
  rw [hcell, readBackCell_ofOption, exclusionOf]
  by_cases hunset : isUnset result.error = true
  · simp [presentText, hunset, Cell.truthy]
  · have htruthy : (Cell.ofOption result.error).truthy = true := by
      cases hvalue : result.error with
      | none => exact absurd (by simp [isUnset, hvalue]) hunset
      | some s => simpa [isUnset, hvalue, Cell.ofOption, Cell.truthy] using hunset
    simp [presentText, hunset, htruthy]

/-- A row that was written is read as the result it reports. -/
theorem parseCopyRow_copyReportRow (h : IsReportable presign destProvider result)
    (acc : CopyDeleteDetails) :
    parseCopyRow T (copyReportHeaders.map .text) acc
        ((copyReportRow presign destProvider item result).map readBackCell) =
      acc.add presign destProvider item result := by
  obtain ⟨hbucket, hkey, hurl⟩ := h.cells T item
  have hstatus := cellValue_status T presign destProvider item result
  have hwritten : ¬((copyReportRow presign destProvider item result).map readBackCell).all
      (· == .blank) = true := by
    intro hblank
    exact nomatch hstatus.symm.trans (cellValue_of_blank hblank)
  unfold parseCopyRow CopyDeleteDetails.add
  simp only [if_neg hwritten, hstatus, hbucket, hkey, hurl, Cell.strOrEmpty, lower_copyStatusText]
  cases hsuccess : result.success with
  | false =>
      have htext : copyStatusText result = "Failed".toList := by simp [copyStatusText, hsuccess]
      rw [htext, if_pos (by decide), if_neg Bool.false_ne_true, reason_copyReportRow _ rfl]
      rfl
  | true =>
      have hvalues : (!(Cell.text result.bucket).truthy || !(Cell.text result.key).truthy ||
          !(Cell.text (presign destProvider result.destBucket result.key)).truthy) = false := by
        simp [Cell.truthy, h.bucket, h.key, h.url]
      have hsize : cellValue T (copyReportHeaders.map .text)
          ((copyReportRow presign destProvider item result).map readBackCell)
          "size (mb)".toList = readBackCell item.sizeMb := by
        have hcolumn : columnOf copyReportHeaders "size (mb)".toList = some 4 := by decide
        rw [cellValue_copyReportRow hcolumn]
        rfl
      simp only [hvalues, hsize, if_true, Bool.false_eq_true, if_false]
      cases hskipped : result.skipped with
      | false =>
          have htext : copyStatusText result = "Copied".toList := by
            simp [copyStatusText, hsuccess, hskipped]
          have hsmall : "Copied".toList.map Char.toLower = "copied".toList := by decide
          have hcapital : capitalize "copied".toList = "Copied".toList := by decide
          rw [htext, hsmall, if_neg (by decide), hcapital]
          simp [deletableOf, htext]
      | true =>
          have htext : copyStatusText result = "Skipped".toList := by
            simp [copyStatusText, hsuccess, hskipped]
          have hsmall : "Skipped".toList.map Char.toLower = "skipped".toList := by decide
          have hcapital : capitalize "skipped".toList = "Skipped".toList := by decide
          rw [htext, hsmall, if_neg (by decide), hcapital]
          simp [deletableOf, htext]

/-! ## The objects to delete -/

theorem foldl_add (pairs : List (CopyItem × CopyResult)) (acc : CopyDeleteDetails) :
    pairs.foldl (fun acc p ↦ acc.add presign destProvider p.1 p.2) acc = {
      results := acc.results ++ (pairs.filter (·.2.success)).map fun p ↦
        deletableOf presign destProvider p.1 p.2
      stats := {
        total := acc.stats.total + pairs.length
        eligible := acc.stats.eligible + pairs.countP (·.2.success)
        copied := acc.stats.copied + pairs.countP fun p ↦ p.2.success && !p.2.skipped
        skipped := acc.stats.skipped + pairs.countP fun p ↦ p.2.success && p.2.skipped
        failed := acc.stats.failed + pairs.countP (!·.2.success)
        incomplete := acc.stats.incomplete }
      excluded := acc.excluded ++ (pairs.filter (!·.2.success)).map fun p ↦
        exclusionOf presign destProvider p.2 } := by
  induction pairs generalizing acc with
  | nil => simp
  | cons p pairs ih =>
      rw [List.foldl_cons, ih]
      have hwords : "skipped".toList ≠ "copied".toList := by decide
      cases hsuccess : p.2.success with
      | false => simp [CopyDeleteDetails.add, hsuccess]; omega
      | true =>
          cases hskipped : p.2.skipped with
          | false =>
              simp [CopyDeleteDetails.add, CopyReportStats.countEligible, hsuccess, hskipped]
              omega
          | true =>
              simp [CopyDeleteDetails.add, CopyReportStats.countEligible, hsuccess, hskipped]
              omega

theorem parseCopyReportForDeleteDetails_buildCopyReport (T : Tables) {body : CopyBody}
    {results : List CopyResult}
    (h : ∀ p ∈ body.items.zip results, IsReportable presign body.destProvider p.2) :
    parseCopyReportForDeleteDetails T
        ((buildCopyReport presign body results).reread readBackCell) =
      .ok ((body.items.zip results).foldl
        (fun acc p ↦ acc.add presign body.destProvider p.1 p.2) .empty) := by
  have hmissing : (["bucket", "key", "destination url", "status"].filter fun name ↦
      (colIndex T (copyReportHeaders.map .text) name.toList).isNone) = [] := by
    simp only [colIndex_text _ plain_copyReportHeaders]
    decide
  have hsheet : ((buildCopyReport presign body results).reread readBackCell).find?
      (fun s ↦ decide (s.1 = "Copied".toList)) = some ("Copied".toList,
        (copyReportHeaders.map .text).map readBackCell ::
          ((body.items.zip results).map fun p ↦
            copyReportRow presign body.destProvider p.1 p.2).map fun cells ↦
              cells.map readBackCell) := rfl
  have hheader : copyReportHeaders.map Cell.text ≠ [] := by decide
  rw [parseCopyReportForDeleteDetails, hsheet]
  simp only [readBackCell_reads.headers, if_neg hheader, hmissing, if_true, List.foldl_map]
  congr 1
  apply List.foldl_ext
  intro acc p hp
  exact parseCopyRow_copyReportRow (h p hp) acc

/-! ## The rows to update -/

theorem given_presentText (value : Option Str) :
    ((presentText value).getD .blank != .blank && (presentText value).getD .blank != .text []) =
      (presentText value).isSome := by
  unfold presentText
  split_ifs with hunset
  · rfl
  · cases value with
    | none => exact absurd rfl hunset
    | some s =>
        have hs : s ≠ [] := fun hs ↦ hunset (by simp [isUnset, hs])
        simp [Cell.ofOption, hs]

theorem readBackCell_rowId (rowId : Cell) :
    readBackCell (if rowId = .blank then .text [] else rowId) =
      if rowId ≠ .blank ∧ rowId ≠ .text [] then rowId else .blank := by
  unfold readBackCell
  split_ifs <;> simp_all

theorem reportedUpdate_eq_updateOf (h : IsReportable presign destProvider result) :
    reportedUpdate readBackCell presign destProvider item result =
      updateOf presign destProvider item result := by
  have hrow : reportedRow readBackCell presign destProvider item result =
      ⟨(presentText item.path).getD .blank,
        .text (presign destProvider result.destBucket result.key),
        (presentText item.table).getD .blank, (presentText item.column).getD .blank,
        if item.rowId ≠ .blank ∧ item.rowId ≠ .text [] then item.rowId else .blank⟩ := by
    rw [reportedRow, if_neg h.destBucket, readBackCell_text h.url, readBackCell_rowId]
    simp only [readBackCell_ofOption]
  have hcomplete : (reportedRow readBackCell presign destProvider item result).isComplete =
      ((presentText item.path).isSome && (presentText item.table).isSome &&
        (presentText item.column).isSome &&
        decide (item.rowId ≠ .blank ∧ item.rowId ≠ .text [])) := by
    have hurl : (Cell.text (presign destProvider result.destBucket result.key) != .blank &&
        Cell.text (presign destProvider result.destBucket result.key) != .text []) = true := by
      simp [h.url]
    rw [hrow]
    simp only [DbUpdateRow.isComplete, List.all_cons, List.all_nil, given_presentText, hurl]
    by_cases hid : item.rowId ≠ .blank ∧ item.rowId ≠ .text []
    · have hgiven : (item.rowId != .blank && item.rowId != .text []) = true := by
        simpa using hid
      simp [hid, hgiven, Bool.and_assoc]
    · simp [hid]
  rw [reportedUpdate, hcomplete, hrow, updateOf]
  cases result.success with
  | false => simp
  | true =>
      by_cases hid : item.rowId ≠ .blank ∧ item.rowId ≠ .text []
      · cases presentText item.path <;> cases presentText item.table <;>
          cases presentText item.column <;> simp [hid]
      · simp [hid]

end Reading

/-! ## The results of a copy -/

section Outcomes

variable {σ : Type*} {store : Str → σ} {presign : Str → Str → Str → Str} {body : CopyBody}
  {results : List CopyResult}

theorem CopyCall.IsOutcome.isReportable {item : CopyItem} {result : CopyResult}
    (h : (copyCallOf store body).IsOutcome (item.bucket, item.key) result)
    (hbucket : item.bucket ≠ []) (hkey : item.key ≠ [])
    (hurl : ∀ bucket key, presign body.destProvider bucket key ≠ []) :
    IsReportable presign body.destProvider result := by
  obtain ⟨success, skipped, error, rfl⟩ := h
  refine ⟨hbucket, hkey, ?_, hurl _ _⟩
  change (copyCallOf store body).resolveDestBucket (item.bucket, item.key) ≠ []
  unfold resolveDestBucket copyCallOf
  split
  · contradiction
  · exact List.cons_ne_nil _ _
  · exact hbucket

theorem isReportable_of_outcomes
    (hitems : ∀ item ∈ body.items, item.bucket ≠ [] ∧ item.key ≠ [])
    (hresults : List.Forall₂ (fun item result ↦
      (copyCallOf store body).IsOutcome (item.bucket, item.key) result) body.items results)
    (hurl : ∀ bucket key, presign body.destProvider bucket key ≠ []) :
    ∀ p ∈ body.items.zip results, IsReportable presign body.destProvider p.2 := by
  intro p hp
  obtain ⟨hbucket, hkey⟩ := hitems p.1 (List.of_mem_zip hp).1
  exact (List.forall₂_zip hresults hp).isReportable hbucket hkey hurl

theorem map_filter_zip (hlength : body.items.length = results.length) {β : Type*}
    (q : CopyResult → Bool) (g : CopyResult → β) :
    ((body.items.zip results).filter fun p ↦ q p.2).map (fun p ↦ g p.2) =
      (results.filter q).map g := by
  have hsnd : (body.items.zip results).map Prod.snd = results :=
    List.map_snd_zip hlength.ge
  conv_rhs => rw [← hsnd, List.filter_map, List.map_map]
  rfl

theorem countP_success (pairs : List (CopyItem × CopyResult)) :
    pairs.countP (·.2.success) = (pairs.countP fun p ↦ p.2.success && !p.2.skipped) +
      pairs.countP fun p ↦ p.2.success && p.2.skipped := by
  induction pairs with
  | nil => rfl
  | cons p pairs ih =>
      simp only [List.countP_cons, ih]
      cases p.2.success <;> cases p.2.skipped <;> simp <;> omega

/-- The report of a copy leads to deleting and updating just what succeeded. -/
theorem copyReport_workLists (T : Tables)
    (hitems : ∀ item ∈ body.items, item.bucket ≠ [] ∧ item.key ≠ [])
    (hresults : List.Forall₂ (fun item result ↦
      (copyCallOf store body).IsOutcome (item.bucket, item.key) result) body.items results)
    (hurl : ∀ bucket key, presign body.destProvider bucket key ≠ []) :
    (∃ details, parseCopyReportForDeleteDetails T
        ((buildCopyReport presign body results).reread readBackCell) = .ok details ∧
      details.results.map (fun row ↦ (row.bucket, row.key)) =
        (results.filter (·.success)).map (fun r ↦ (.text r.bucket, .text r.key)) ∧
      details.excluded.map (fun row ↦ (row.bucket, row.key)) =
        (results.filter (!·.success)).map (fun r ↦ (.text r.bucket, .text r.key)) ∧
      details.stats.total = body.items.length ∧
      details.stats.total =
        details.stats.eligible + details.stats.failed + details.stats.incomplete ∧
      details.stats.eligible = details.stats.copied + details.stats.skipped) ∧
    ∃ stats, parseCopyReportForDbUpdate T
        ((buildCopyReport presign body results).reread readBackCell) =
      .ok ⟨(body.items.zip results).filterMap fun p ↦
        updateOf presign body.destProvider p.1 p.2, stats⟩ := by
  have hreportable := isReportable_of_outcomes hitems hresults hurl
  have hlength := hresults.length_eq
  refine ⟨⟨_, parseCopyReportForDeleteDetails_buildCopyReport T hreportable, ?_⟩, ?_⟩
  · have hzip : (body.items.zip results).length = body.items.length := by
      rw [List.length_zip, hlength, min_self]
    rw [foldl_add]
    simp only [CopyDeleteDetails.empty, List.nil_append, List.map_map, Nat.zero_add]
    refine ⟨?_, ?_, hzip, ?_, countP_success _⟩
    · exact map_filter_zip hlength (·.success) fun r ↦ (Cell.text r.bucket, Cell.text r.key)
    · exact map_filter_zip hlength (!·.success) fun r ↦ (Cell.text r.bucket, Cell.text r.key)
    · rw [List.length_eq_countP_add_countP fun p : CopyItem × CopyResult ↦ p.2.success]
      simp
  · obtain ⟨stats, hparse⟩ :=
      parseCopyReportForDbUpdate_buildCopyReport T presign readBackCell_reads body results
    refine ⟨stats, ?_⟩
    rw [hparse]
    congr 2
    apply List.filterMap_congr
    intro p hp
    exact reportedUpdate_eq_updateOf (hreportable p hp)

end Outcomes

/-! ## A report of three items -/

def movedItem (key : Str) (path : Option Str) : CopyItem where
  bucket := "scola".toList
  key := key
  sizeMb := .blank
  path := path
  table := some "files".toList
  column := some "photo".toList
  rowId := .number "0".toList true

def movedBody : CopyBody where
  items := [movedItem "a.png".toList (some "a.png".toList),
    movedItem "b.png".toList (some "b.png".toList), movedItem "c.png".toList none]
  sourceProvider := "do-sfo2".toList
  destProvider := "do-sgp1".toList
  destBucket := none
  overwrite := false
  makePublic := true

/-- One item is copied, one fails, and one is found in place. -/
def movedResults : List CopyResult :=
  [(copyCallOf id movedBody).copied ("scola".toList, "a.png".toList),
    (copyCallOf id movedBody).failed ("scola".toList, "b.png".toList) "timeout".toList,
    (copyCallOf id movedBody).skippedOutcome ("scola".toList, "c.png".toList)]

def movedLink (provider bucket key : Str) : Str :=
  signedUrl Tables.ascii sgp1Env plainQuery (some provider) bucket key

theorem copyReport_workLists_moved :
    (∃ details, parseCopyReportForDeleteDetails Tables.ascii
        ((buildCopyReport movedLink movedBody movedResults).reread readBackCell) = .ok details ∧
      details.results.map (fun row ↦ (row.bucket, row.key)) =
        [(.text "scola".toList, .text "a.png".toList),
          (.text "scola".toList, .text "c.png".toList)]) ∧
    ∃ stats, parseCopyReportForDbUpdate Tables.ascii
        ((buildCopyReport movedLink movedBody movedResults).reread readBackCell) =
      .ok ⟨[⟨.text "a.png".toList,
        .text (movedLink "do-sgp1".toList "scola".toList "a.png".toList), .text "files".toList,
        .text "photo".toList, .number "0".toList true⟩], stats⟩ := by
  have hitems : ∀ item ∈ movedBody.items, item.bucket ≠ [] ∧ item.key ≠ [] := by decide
  have hresults : List.Forall₂ (fun item result ↦
      (copyCallOf id movedBody).IsOutcome (item.bucket, item.key) result) movedBody.items
      movedResults :=
    .cons ⟨true, false, none, rfl⟩ (.cons ⟨false, false, some "timeout".toList, rfl⟩
      (.cons ⟨true, true, none, rfl⟩ .nil))
  have hurl : ∀ bucket key, movedLink movedBody.destProvider bucket key ≠ [] :=
    fun bucket key ↦ signedUrl_ne_nil bucket key
  obtain ⟨⟨details, hparse, hdeletable, _⟩, hupdates⟩ :=
    copyReport_workLists Tables.ascii hitems hresults hurl
  exact ⟨⟨details, hparse, hdeletable⟩, hupdates⟩

end StorageReconciler
