import StorageReconciler.FileReferences
import StorageReconciler.MatchedReport
import StorageReconciler.RepeatedMigration
import StorageReconciler.SharedReferences

/-!
# Rows that a migration leaves behind

The matched files of a run are copied, and their rows repointed.  A row that shares
its object with a matched one is repointed only if the UPDATE for the matched row
fits it as well, and there may be no UPDATE for it at all.
-/

namespace StorageReconciler

open Strings Fallible

variable {σ ν ω : Type}

/-! ## Rows that the updates reach -/

section Reached

variable [DecidableEq ν] [DecidableEq ω] {server : Server ν ω} {targets : Targets}
  {items : List (UpdateItem ν)} {item : UpdateItem ν} {contents contents' : TableRows ν}
  {outcome : UpdateOutcome} {outcomes : List UpdateOutcome} {table : Str} {i : ℕ}
  {row row' : Row ν}

/-- The condition of the item's UPDATE fits the row at a place of its table when the turn of
the item comes. -/
inductive IsReached (server : Server ν ω) (targets : Targets) (item : UpdateItem ν) (i : ℕ) :
    List (UpdateItem ν) → TableRows ν → Prop where
  | now {rest : List (UpdateItem ν)} {contents : TableRows ν} {idColumn : Str} {names : List Str}
      {row : Row ν} (target : targets.get? item.table = some (idColumn, names))
      (row_at : (contents item.table)[i]? = some row)
      (matched : isMatched server idColumn item row = true) :
      IsReached server targets item i (item :: rest) contents
  | later {other : UpdateItem ν} {rest : List (UpdateItem ν)} {contents contents' : TableRows ν}
      {outcome : UpdateOutcome}
      (one : updateOne server targets other contents = .ok (contents', outcome))
      (reached : IsReached server targets item i rest contents') :
      IsReached server targets item i (other :: rest) contents

/-- What one item makes of a row. -/
theorem updateOne_row (h : updateOne server targets item contents = .ok (contents', outcome))
    (hrow : (contents table)[i]? = some row) :
    ∃ row', (contents' table)[i]? = some row' ∧ ∀ column, row'.cell column = row.cell column ∨
      item.table = table ∧ item.column = column ∧
        (∀ rest, IsReached server targets item i (item :: rest) contents) ∧
        row'.cell column = some (server.text item.destinationUrl) := by
  obtain ⟨idColumn, names, htarget, ⟨_, rfl, _⟩ | ⟨_, _, ⟨_, rfl⟩ | ⟨_, _, rfl, _⟩⟩⟩ :=
    updateOne_cases h
  · exact ⟨row, hrow, fun _ ↦ .inl rfl⟩
  · exact ⟨row, hrow, fun _ ↦ .inl rfl⟩
  · by_cases htable : table = item.table
    · subst htable
      refine ⟨updateRow server idColumn item row, ?_, fun column ↦ ?_⟩
      · exact getElem?_applyUpdate hrow
      · by_cases hcolumn : column = item.column
        · subst hcolumn
          cases hmatch : isMatched server idColumn item row with
          | false => exact .inl (by rw [updateRow_of_not_isMatched hmatch])
          | true =>
              exact .inr ⟨rfl, rfl, fun _ ↦ .now htarget hrow hmatch, updateRow_cell hmatch⟩
        · exact .inl (updateRow_cell_of_ne hcolumn)
    · refine ⟨row, ?_, fun _ ↦ .inl rfl⟩
      rw [applyUpdate_of_ne htable]
      exact hrow

/-- An item that is updated writes to every row that its condition fits. -/
theorem updateOne_row_of_updated {idColumn : Str} {names : List Str}
    (h : updateOne server targets item contents = .ok (contents', .updated))
    (htarget : targets.get? item.table = some (idColumn, names))
    (hrow : (contents item.table)[i]? = some row)
    (hmatch : isMatched server idColumn item row = true) :
    ∃ row', (contents' item.table)[i]? = some row' ∧
      row'.cell item.column = some (server.text item.destinationUrl) := by
  obtain ⟨idColumn', names', htarget', hcases⟩ := updateOne_cases h
  obtain ⟨rfl, _⟩ := Prod.mk.inj (Option.some.inj (htarget.symm.trans htarget'))
  rcases hcases with ⟨_, _, hmissing⟩ | ⟨_, _, ⟨hjudge, _⟩ | ⟨_, _, rfl, _⟩⟩
  · cases hmissing
  · exact absurd rfl (ne_updated_of_judge hjudge)
  · exact ⟨updateRow server idColumn item row, getElem?_applyUpdate hrow, updateRow_cell hmatch⟩

/-- A cell that a run changes was reached by an item, and holds its destination. -/
theorem updateItems_row
    (h : updateItems server targets items contents = .ok (contents', outcomes))
    (hrow : (contents table)[i]? = some row) :
    ∃ row', (contents' table)[i]? = some row' ∧ ∀ column, row'.cell column = row.cell column ∨
      ∃ item ∈ items, item.table = table ∧ item.column = column ∧
        IsReached server targets item i items contents ∧
        row'.cell column = some (server.text item.destinationUrl) := by
  induction items generalizing contents row outcomes with
  | nil =>
      obtain ⟨rfl, _⟩ := Prod.mk.inj (Except.ok.inj h)
      exact ⟨row, hrow, fun _ ↦ .inl rfl⟩
  | cons first rest ih =>
      obtain ⟨contents₁, outcome, outcomes', hone, hrest, _⟩ := updateItems_cons_eq_ok h
      obtain ⟨row₁, hrow₁, hstep⟩ := updateOne_row hone hrow
      obtain ⟨row', hrow', hcells⟩ := ih hrest hrow₁
      refine ⟨row', hrow', fun column ↦ ?_⟩
      rcases hcells column with hsame | ⟨item, hitem, htable, hcolumn, hreached, hcell⟩
      · rcases hstep column with hsame₁ | ⟨htable, hcolumn, hreached, hcell⟩
        · exact .inl (hsame.trans hsame₁)
        · exact .inr ⟨first, List.mem_cons_self, htable, hcolumn, hreached rest,
            hsame.trans hcell⟩
      · exact .inr ⟨item, List.mem_cons_of_mem first hitem, htable, hcolumn, .later hone hreached,
          hcell⟩

/-- Where every item is updated, a cell that is reached ends as the destination of one. -/
theorem cell_of_isReached
    (h : updateItems server targets items contents = .ok (contents', outcomes))
    (hall : ∀ outcome ∈ outcomes, outcome = .updated)
    (hreached : IsReached server targets item i items contents)
    (hrow' : (contents' item.table)[i]? = some row') :
    ∃ last ∈ items, row'.cell item.column = some (server.text last.destinationUrl) := by
  induction items generalizing contents outcomes with
  | nil => cases hreached
  | cons first rest ih =>
      obtain ⟨contents₁, outcome, outcomes', hone, hrest, rfl⟩ := updateItems_cons_eq_ok h
      obtain ⟨rfl, hall'⟩ := List.forall_mem_cons.mp hall
      cases hreached with
      | @now _ _ idColumn names row target row_at matched =>
          obtain ⟨row₁, hrow₁, hcell₁⟩ := updateOne_row_of_updated hone target row_at matched
          obtain ⟨row₂, hrow₂, hcells⟩ := updateItems_row hrest hrow₁
          obtain rfl := Option.some.inj (hrow₂.symm.trans hrow')
          rcases hcells item.column with hsame | ⟨last, hlast, _, _, _, hcell⟩
          · exact ⟨item, List.mem_cons_self, hsame.trans hcell₁⟩
          · exact ⟨last, List.mem_cons_of_mem item hlast, hcell⟩
      | later one reached =>
          obtain ⟨rfl, _⟩ := Prod.mk.inj (Except.ok.inj (one.symm.trans hone))
          obtain ⟨last, hlast, hcell⟩ := ih hrest hall' reached
          exact ⟨last, List.mem_cons_of_mem first hlast, hcell⟩

end Reached

/-! ## From the matched rows to the updates -/

/-- An optional text of a request. -/
def optionalText : Cell → Option (Option Str)
  | .blank => some none
  | .text s => some (some s)
  | .number _ _ => none

/-- The item that the page asks to copy for a row of the report; the texts must be such. -/
def copyItemOf (row : MatchedReportRow) : Option CopyItem := do
  let .text bucket := row.bucket | none
  let path ← optionalText row.rawValue
  let table ← optionalText row.table
  let column ← optionalText row.column
  return ⟨bucket, row.key, row.sizeMb, path, table, column, row.rowId⟩

theorem eq_of_optionalText {c : Cell} {s : Str} (h : optionalText c = some (some s)) :
    c = .text s := by
  cases c with
  | blank => cases h
  | text s' =>
      obtain rfl := Option.some.inj (Option.some.inj h)
      rfl
  | number printed isZero => cases h

/-- The texts of the item are the cells of the row. -/
theorem cells_of_copyItemOf {row : MatchedReportRow} {item : CopyItem}
    (h : copyItemOf row = some item) :
    optionalText row.rawValue = some item.path ∧ optionalText row.table = some item.table ∧
      optionalText row.column = some item.column ∧ row.rowId = item.rowId := by
  unfold copyItemOf at h
  split at h
  · obtain ⟨path, hpath, h⟩ := Option.bind_eq_some_iff.mp h
    obtain ⟨table, htable, h⟩ := Option.bind_eq_some_iff.mp h
    obtain ⟨column, hcolumn, h⟩ := Option.bind_eq_some_iff.mp h
    obtain rfl := Option.some.inj h
    exact ⟨hpath, htable, hcolumn, rfl⟩
  · cases h

theorem ReadsBack.eq_of_ne_blank {readBack : Cell → Cell} (h : ReadsBack readBack) {c : Cell}
    (hne : readBack c ≠ .blank) : readBack c = c :=
  (h.kept c).resolve_right hne

theorem ReadsBack.text_of_readBack {readBack : Cell → Cell} (h : ReadsBack readBack) {c : Cell}
    {s : Str} (hc : readBack c = .text s) : c = .text s := by
  have hkept := h.eq_of_ne_blank (c := c) (hc ▸ Cell.noConfusion)
  exact hkept.symm.trans hc

theorem eq_some_of_readBack {readBack : Cell → Cell} (h : ReadsBack readBack)
    {value : Option Str} {s : Str} (hc : readBack (.ofOption value) = .text s)
    (hne : readBack (.ofOption value) ≠ .text []) : value = some s := by
  have hcell := h.text_of_readBack hc
  cases value with
  | none =>
      rw [hc] at hne
      exact absurd hcell.symm hne
  | some s' => rw [Cell.text.inj hcell]

theorem texts_of_updateItemOf {value : Cell → ν} {row : DbUpdateRow} {update : UpdateItem ν}
    (h : updateItemOf value row = some update) :
    row.sourcePath = .text update.sourcePath ∧ row.table = .text update.table ∧
      row.column = .text update.column ∧ update.rowId = value row.rowId := by
  unfold updateItemOf at h
  split at h
  · next hsource _ htable hcolumn =>
      obtain rfl := Option.some.inj h
      exact ⟨hsource, htable, hcolumn, rfl⟩
  · cases h

theorem ne_of_isComplete {row : DbUpdateRow} (h : row.isComplete = true) :
    row.sourcePath ≠ .text [] ∧ row.table ≠ .text [] ∧ row.column ≠ .text [] ∧
      row.rowId ≠ .blank ∧ row.rowId ≠ .text [] := by
  simp only [DbUpdateRow.isComplete, List.all_cons, List.all_nil, Bool.and_eq_true,
    bne_iff_ne] at h
  exact ⟨h.1.2, h.2.2.1.2, h.2.2.2.1.2, h.2.2.2.2.1⟩

/-- The update sets the cell that the reference was read from, if it holds the same text. -/
structure IsUpdateOf (value : Cell → ν) (idCell : ν → Cell) (ref : DbFileReference ν)
    (update : UpdateItem ν) : Prop where
  sourcePath : update.sourcePath = ref.value
  table : update.table = ref.table
  column : update.column = ref.column
  rowId : update.rowId = value (rowIdCell idCell ref.id)

/-- The rows of a sheet, as they are read back. -/
def rereadRows (readBack : Cell → Cell) (rows : List (List Cell)) : List (List Cell) :=
  rows.map fun row ↦ row.map readBack

section Report

variable {T : Tables} {env : Env} {query : Str → Str → Str} {formats : Formats} {gb : ℕ → Cell}
  {idCell : ν → Cell} {provider : Option Str} {readBack : Cell → Cell}

theorem rereadRows_matched (hheaders : ∀ s ∈ matchedHeaders, readBack (.text s) = .text s)
    (cells : List (List Cell)) :
    rereadRows readBack (matchedHeaders.map .text :: cells) =
      matchedHeaders.map .text :: rereadRows readBack cells := by
  have hheader : (matchedHeaders.map Cell.text).map readBack = matchedHeaders.map .text := by
    rw [List.map_map]
    exact List.map_congr_left hheaders
  rw [rereadRows, List.map_cons, hheader]
  rfl

/-- A row that is read of the report was written for a matched file. -/
theorem exists_matched_of_mem_rows
    (hheaders : ∀ s ∈ matchedHeaders, readBack (.text s) = .text s)
    {result : ReconciliationResult ν} {workbook : Workbook} {rows : List MatchedReportRow}
    (hreport : generateReconciliationReport T env query formats gb idCell provider result =
      .ok workbook)
    (hparse : parseMatchedReport T env (workbook.reread readBack) = .ok rows)
    {row : MatchedReportRow} (hrow : row ∈ rows) :
    ∃ file ∈ result.matched, row.rawValue = readBack (rawValueCell file.rawValue
        (some (signedUrl T env query provider file.bucket file.path))) ∧
      row.table = readBack (.text file.table) ∧ row.column = readBack (.text file.column) ∧
      row.rowId = readBack (rowIdCell idCell file.id) := by
  obtain ⟨others, orphanRows, _, rfl, hmatched⟩ := sheets_of_report hreport
  have hbook : (DeletableSheet.orphan.workbook others orphanRows).reread readBack =
      DeletableSheet.orphan.workbook (fun name ↦ rereadRows readBack (others name))
        (rereadRows readBack orphanRows) := rfl
  have hsheet := rereadRows_matched hheaders (result.matched.map fun file ↦
    matchedRow formats idCell (signedUrl T env query provider file.bucket file.path) file)
  rw [← hmatched] at hsheet
  rw [hbook, parseMatchedReport_workbook hsheet] at hparse
  obtain rfl := Except.ok.inj hparse
  obtain ⟨cells, hcells, hparsed⟩ := List.mem_filterMap.mp hrow
  rw [rereadRows, List.map_map] at hcells
  obtain ⟨file, hfile, rfl⟩ := List.mem_map.mp hcells
  refine ⟨file, hfile, ?_⟩
  have hcell : ∀ {name : Str} {i : ℕ}, columnOf matchedHeaders name = some i →
      cellValue T (matchedHeaders.map .text) ((matchedRow formats idCell
        (signedUrl T env query provider file.bucket file.path) file).map readBack) name =
        (((matchedRow formats idCell (signedUrl T env query provider file.bucket file.path)
          file).map readBack)[i]?).getD .blank :=
    fun hcolumn ↦ cellValue_text _ plain_matchedHeaders hcolumn
  unfold parseMatchedRow at hparsed
  dsimp only [Function.comp_apply] at hparsed
  split at hparsed
  · cases hparsed
  · split at hparsed
    · cases hparsed
    · obtain rfl := Option.some.inj hparsed
      exact ⟨hcell (i := 0) (by decide), hcell (i := 4) (by decide), hcell (i := 5) (by decide),
        hcell (i := 6) (by decide)⟩

end Report

/-! ## From the scan to the rows after the migration -/

section Scan

variable [DecidableEq σ] [DecidableEq ν] [DecidableEq ω] (T : Tables) (env : Env)
  (request : ReconciliationRequest) (buckets : List Str) (data : ScanData ν) (text : ν → Str)
  (idCell : ν → Cell) (m : Migration σ ν ω)

/-- The rows of the report on the run, as they are read back, are copied and repointed, each
of them. -/
structure IsMigrated (time : ℕ) (before after : Objects σ) (pass : MigrationPass ν) : Prop where
  headers : ∀ s ∈ matchedHeaders, m.readBack (.text s) = .text s
  read : ∃ query formats gb provider workbook rows,
    generateReconciliationReport T env query formats gb idCell provider
      (reconcile T env request buckets data) = .ok workbook ∧
    parseMatchedReport T env (workbook.reread m.readBack) = .ok rows ∧
    rows.mapM copyItemOf = some m.body.items
  passed : IsPass T m time before after m.db.contents pass
  repointed : pass.outcomes =
    List.replicate (reconcile T env request buckets data).matched.length .updated

/-- The row at a place of its table was read for a mapping. -/
structure IsScanned (mapping : TableColumnMapping) (column idColumn : Str) (i : ℕ) (row : Row ν) :
    Prop where
  requested : mapping ∈ request.mappings
  resolved : resolveColumns m.db mapping = .ok (column, idColumn)
  row_at : (m.db.contents mapping.table)[i]? = some row
  read : referenceOf text mapping column idColumn row ∈ data.mappingResults.flatten

/-- The reference leads to an object that the run matched. -/
def ReferencesMatched (ref : DbFileReference ν) : Prop :=
  inScope T env (effectiveProvider env request) buckets ref = true ∧
    ∃ file ∈ (reconcile T env request buckets data).matched, keyOf T env ref = file.path

/-- The column holds the link to a copy. -/
def HoldsLink (pass : MigrationPass ν) (column : Str) (row : Row ν) : Prop :=
  ∃ update ∈ pass.items, row.cell column = some (m.server.text update.destinationUrl)

/-- A scanned row that leads to a matched object afterwards does so by the link to a copy. -/
def LeavesNoRow (pass : MigrationPass ν) : Prop :=
  ∀ mapping column idColumn i row row',
    IsScanned request data text m mapping column idColumn i row →
    (pass.contents mapping.table)[i]? = some row' →
    ReferencesMatched T env request buckets data
      (referenceOf text mapping column idColumn row') → HoldsLink m pass column row'

/-- A scanned row with a listed object holds the link to a copy already, or an UPDATE for
the first row to use some object fits it when its turn comes. -/
def ReachesEveryRow (pass : MigrationPass ν) : Prop :=
  ∀ mapping column idColumn i row,
    IsScanned request data text m mapping column idColumn i row →
    IsListedReference T env request buckets data (referenceOf text mapping column idColumn row) →
    HoldsLink m pass column row ∨
      ∃ first update, IsListedReference T env request buckets data first ∧
        IsFirstUse T env request buckets data first ∧ IsUpdateOf m.value idCell first update ∧
        update.table = mapping.table ∧ update.column = column ∧
        IsReached m.server pass.targets update i pass.items m.db.contents

end Scan

section Migrated

variable [DecidableEq σ] [DecidableEq ν] [DecidableEq ω] {T : Tables} {env : Env}
  {request : ReconciliationRequest} {buckets : List Str} {data : ScanData ν} {text : ν → Str}
  {idCell : ν → Cell} {m : Migration σ ν ω} {time : ℕ} {before after : Objects σ}
  {pass : MigrationPass ν}

omit [DecidableEq ν] in
theorem exists_first_of_mem_matched {file : MatchedFile ν}
    (hfile : file ∈ (reconcile T env request buckets data).matched) :
    ∃ first, IsListedReference T env request buckets data first ∧
      IsFirstUse T env request buckets data first ∧ file.path = keyOf T env first ∧
      file.rawValue = some first.value ∧ file.table = first.table ∧
      file.column = first.column ∧ file.id = first.id := by
  obtain ⟨k, first, obj, hfirst, hobj, rfl⟩ := mem_matched.mp hfile
  obtain ⟨⟨hscope, rfl⟩, huse⟩ := firstReference_eq_some_iff.mp hfirst
  exact ⟨first, ⟨hscope, exists_lastListing_iff.mp ⟨obj, hobj⟩⟩, huse, rfl, rfl, rfl, rfl, rfl⟩

/-- What a pass asks the database for is taken from a row of the report. -/
theorem IsPass.exists_item (h : IsPass T m time before after m.db.contents pass)
    {update : UpdateItem ν} (hupdate : update ∈ pass.items) :
    ∃ item ∈ m.body.items, item.path = some update.sourcePath ∧
      item.table = some update.table ∧ item.column = some update.column ∧
      item.rowId ≠ .blank ∧ update.rowId = m.value item.rowId := by
  obtain ⟨_, item, result, row, hitem, _, hreported, hrow⟩ := h.mem_items_iff.mp hupdate
  refine ⟨item, List.mem_of_getElem? hitem, ?_⟩
  unfold reportedUpdate at hreported
  split_ifs at hreported with hcomplete
  obtain rfl := Option.some.inj hreported
  rw [Bool.and_eq_true] at hcomplete
  obtain ⟨hsourceNe, htableNe, hcolumnNe, hblank, hempty⟩ := ne_of_isComplete hcomplete.2
  obtain ⟨hsource, htable, hcolumn, hid⟩ := texts_of_updateItemOf hrow
  refine ⟨eq_some_of_readBack m.reads hsource hsourceNe,
    eq_some_of_readBack m.reads htable htableNe,
    eq_some_of_readBack m.reads hcolumn hcolumnNe, ?_⟩
  have hkept : (reportedRow m.readBack (m.signer.presign time) m.body.destProvider item
      result).rowId = if item.rowId = .blank then .text [] else item.rowId :=
    m.reads.eq_of_ne_blank hblank
  rw [hkept] at hempty hid
  split_ifs at hempty hid with hrowId
  · exact absurd rfl hempty
  · exact ⟨hrowId, hid⟩

/-- What a pass asks the database for is the update of a row that is first to use an object. -/
theorem IsMigrated.exists_first
    (h : IsMigrated T env request buckets data idCell m time before after pass)
    {update : UpdateItem ν} (hupdate : update ∈ pass.items) :
    ∃ first, IsListedReference T env request buckets data first ∧
      IsFirstUse T env request buckets data first ∧
      IsUpdateOf m.value idCell first update := by
  obtain ⟨item, hitem, hpath, htable, hcolumn, hid, hvalue⟩ := h.passed.exists_item hupdate
  obtain ⟨query, formats, gb, provider, workbook, rows, hreport, hparse, hitems⟩ := h.read
  obtain ⟨row, hrow, hcopy⟩ := (mem_of_mapM_eq_some hitems).mp hitem
  obtain ⟨hrowPath, hrowTable, hrowColumn, hrowId⟩ := cells_of_copyItemOf hcopy
  obtain ⟨file, hfile, hfilePath, hfileTable, hfileColumn, hfileId⟩ :=
    exists_matched_of_mem_rows h.headers hreport hparse hrow
  obtain ⟨first, hlisted, huse, _, hraw, hfirstTable, hfirstColumn, hfirstId⟩ :=
    exists_first_of_mem_matched hfile
  refine ⟨first, hlisted, huse, ?_, ?_, ?_, ?_⟩
  · rw [hpath] at hrowPath
    have hcell := m.reads.text_of_readBack (hfilePath ▸ eq_of_optionalText hrowPath)
    rw [hraw] at hcell
    exact (Cell.text.inj hcell).symm
  · rw [htable] at hrowTable
    have hcell := m.reads.text_of_readBack (hfileTable ▸ eq_of_optionalText hrowTable)
    rw [← Cell.text.inj hcell, hfirstTable]
  · rw [hcolumn] at hrowColumn
    have hcell := m.reads.text_of_readBack (hfileColumn ▸ eq_of_optionalText hrowColumn)
    rw [← Cell.text.inj hcell, hfirstColumn]
  · rw [← hrowId, hfileId] at hid
    rw [hvalue, ← hrowId, hfileId, m.reads.eq_of_ne_blank hid, hfirstId]

omit [DecidableEq ν] in
theorem isListedReference_of_referencesMatched {ref : DbFileReference ν}
    (h : ReferencesMatched T env request buckets data ref) :
    IsListedReference T env request buckets data ref := by
  obtain ⟨hscope, file, hfile, hkey⟩ := h
  obtain ⟨first, ⟨_, hlisted⟩, _, hpath, _⟩ := exists_first_of_mem_matched hfile
  refine ⟨hscope, ?_⟩
  rw [hkey, hpath]
  exact hlisted

omit [DecidableEq ν] in
/-- Some row in scope comes first for the key. -/
theorem referencesMatched_of_isListedReference {ref : DbFileReference ν}
    (hmem : ref ∈ data.mappingResults.flatten)
    (h : IsListedReference T env request buckets data ref) :
    ReferencesMatched T env request buckets data ref := by
  obtain ⟨hscope, hlisted⟩ := h
  obtain ⟨obj, hobj⟩ := exists_lastListing_iff.mpr hlisted
  obtain ⟨first, hfirst⟩ : ∃ first,
      firstReference T env request buckets data.mappingResults (keyOf T env ref) = some first := by
    rw [← Option.isSome_iff_exists, firstReference, List.find?_isSome]
    exact ⟨ref, hmem, by simp [hscope]⟩
  exact ⟨hscope, _, mem_matched.mpr ⟨_, first, obj, hfirst, hobj, rfl⟩, rfl⟩

omit [DecidableEq ν] in
/-- The two rows hold the same in the column, so the key is the same. -/
theorem referencesMatched_congr {mapping : TableColumnMapping} {column idColumn : Str}
    {row row' : Row ν} (h : row'.cell column = row.cell column) :
    ReferencesMatched T env request buckets data (referenceOf text mapping column idColumn row') ↔
      ReferencesMatched T env request buckets data
        (referenceOf text mapping column idColumn row) := by
  have hvalue : (referenceOf text mapping column idColumn row').value =
      (referenceOf text mapping column idColumn row).value := by simp [referenceOf, h]
  simp only [ReferencesMatched, inScope, keyOf, hvalue]

/-- The migration leaves no row behind if and only if the updates reach every row. -/
theorem leavesNoRow_iff_reachesEveryRow
    (h : IsMigrated T env request buckets data idCell m time before after pass) :
    LeavesNoRow T env request buckets data text m pass ↔
      ReachesEveryRow T env request buckets data text idCell m pass := by
  have hupdated : ∀ outcome ∈ pass.outcomes, outcome = .updated := by
    rw [h.repointed]
    exact fun outcome houtcome ↦ List.eq_of_mem_replicate houtcome
  constructor
  · intro hleaves mapping column idColumn i row hscanned hlisted
    obtain ⟨row', hrow', hcells⟩ := updateItems_row h.passed.updated hscanned.row_at
    rcases hcells column with hsame | ⟨update, hupdate, htable, hcolumn, hreached, _⟩
    · -- nothing was written, so the row leads where it led
      have hmatched := referencesMatched_of_isListedReference hscanned.read hlisted
      obtain ⟨link, hlink, hcell⟩ := hleaves mapping column idColumn i row row' hscanned hrow'
        ((referencesMatched_congr hsame).mpr hmatched)
      exact .inl ⟨link, hlink, hsame ▸ hcell⟩
    · obtain ⟨first, hfirst, huse, hof⟩ := h.exists_first hupdate
      exact .inr ⟨first, update, hfirst, huse, hof, htable, hcolumn, hreached⟩
  · intro hreaches mapping column idColumn i row row' hscanned hrow' hmatched
    obtain ⟨row₁, hrow₁, hcells⟩ := updateItems_row h.passed.updated hscanned.row_at
    obtain rfl := Option.some.inj (hrow₁.symm.trans hrow')
    rcases hcells column with hsame | ⟨update, hupdate, _, _, _, hcell⟩
    · have hlisted := isListedReference_of_referencesMatched
        ((referencesMatched_congr hsame).mp hmatched)
      rcases hreaches mapping column idColumn i row hscanned hlisted with
        ⟨link, hlink, hcell⟩ | ⟨_, update, _, _, _, htable, rfl, hreached⟩
      · exact ⟨link, hlink, hsame.trans hcell⟩
      · rw [← htable] at hrow'
        exact cell_of_isReached h.passed.updated hupdated hreached hrow'
    · exact ⟨update, hupdate, hcell⟩

/-- Every row with a listed object is carried by a matched file, and leads to a copy once the
matched rows are copied and repointed, exactly when each such row shares table, column and id
with a row that is the first to use some listed object, and the UPDATE for one fits it. -/
theorem matched_carries_every_row_iff (T : Tables) (env : Env) (request : ReconciliationRequest)
    (buckets : List Str) (data : ScanData ν) (text : ν → Str) (idCell : ν → Cell)
    (m : Migration σ ν ω) (time : ℕ) (before after : Objects σ) (pass : MigrationPass ν) :
    ((∀ ref ∈ data.mappingResults.flatten, IsListedReference T env request buckets data ref →
        ∃ file ∈ (reconcile T env request buckets data).matched, CarriesRow file ref) ∧
      (IsMigrated T env request buckets data idCell m time before after pass →
        LeavesNoRow T env request buckets data text m pass)) ↔
    (∀ ref ∈ data.mappingResults.flatten, IsListedReference T env request buckets data ref →
        ∃ first, IsListedReference T env request buckets data first ∧
          IsFirstUse T env request buckets data first ∧ SameRow ref first) ∧
      (IsMigrated T env request buckets data idCell m time before after pass →
        ReachesEveryRow T env request buckets data text idCell m pass) := by
  apply and_congr
  · exact forall_congr' fun _ ↦ forall_congr' fun _ ↦ forall_congr' fun _ ↦ exists_matched_iff
  · exact imp_congr_right leavesNoRow_iff_reachesEveryRow

end Migrated

/-! ## Two rows with one photo -/

/-- Two users with the same photo. -/
def sharedPhotoReads : ScanData ℕ where
  mappingResults :=
    [[⟨"users".toList, "photo".toList, some 1, "a.png".toList⟩,
      ⟨"users".toList, "photo".toList, some 2, "a.png".toList⟩]]
  bucketResults := [[⟨"scola".toList, "a.png".toList, 5, none, none⟩]]
  contentResults := none

/-- The id of the two files is the same, and the second one is written with a slash. -/
def twinDatabase : Database Str :=
  legacyDatabase [pathRow 0 ['7'] "a.png".toList, pathRow 1 ['7'] "/a.png".toList] (by decide)

def fileMapping : TableColumnMapping := ⟨"files".toList, "file".toList, none⟩

def twinRequest : ReconciliationRequest :=
  { photoRequest "scola".toList with mappings := [fileMapping] }

def twinReads : ScanData Str where
  mappingResults :=
    [[pathRow 0 ['7'] "a.png".toList, pathRow 1 ['7'] "/a.png".toList].map
      (referenceOf id fileMapping "file".toList "id".toList)]
  bucketResults := [[⟨"scola".toList, "a.png".toList, 5, none, none⟩]]
  contentResults := none

def twinMigration : Migration Str Str Str :=
  { matchedMigration twinDatabase with
    body := { matchedBody with
      items := [⟨"scola".toList, "a.png".toList, .blank, some "a.png".toList,
        some "files".toList, some "file".toList, .text ['7']⟩] } }

def twinUpdate : UpdateItem Str := pathItem ['7'] "a.png".toList (photoLink 0)

def twinPass : MigrationPass Str where
  results := [photoResult true]
  items := [twinUpdate]
  targets := fileTargets
  contents := applyUpdate plainServer "id".toList twinUpdate twinDatabase.contents
  outcomes := [.updated]

theorem twin_isMigrated :
    IsMigrated Tables.ascii sgp1Env twinRequest ["scola".toList] twinReads .text twinMigration 0
      migratedObjects migratedObjects twinPass := by
  refine ⟨by decide, ⟨plainQuery, plainFormats, fun _ ↦ .blank, none, _, _, rfl, rfl, rfl⟩, ?_, ?_⟩
  · refine ⟨⟨_, matchedBody_skips⟩, ?_, rfl, rfl⟩
    obtain ⟨stats, hparse⟩ := parseCopyReportForDbUpdate_buildCopyReport Tables.ascii
      (stampedSigner.presign 0) readBackCell_reads twinMigration.body [photoResult true]
    exact ⟨_, hparse, rfl⟩
  · decide

/-- The second user's row appears in no matched file, and the UPDATE for the first of two
files with one id does not fit the other one. -/
theorem matched_leaves_row_behind :
    (¬∀ (T : Tables) (env : Env) (request : ReconciliationRequest) (buckets : List Str)
      (data : ScanData ℕ), ∀ ref ∈ data.mappingResults.flatten,
      IsListedReference T env request buckets data ref →
      ∃ m ∈ (reconcile T env request buckets data).matched, CarriesRow m ref) ∧
    (∀ ref ∈ twinReads.mappingResults.flatten,
      ∃ m ∈ (reconcile Tables.ascii sgp1Env twinRequest ["scola".toList] twinReads).matched,
        CarriesRow m ref) ∧
    IsMigrated Tables.ascii sgp1Env twinRequest ["scola".toList] twinReads .text twinMigration 0
      migratedObjects migratedObjects twinPass ∧
    ¬ LeavesNoRow Tables.ascii sgp1Env twinRequest ["scola".toList] twinReads id twinMigration
      twinPass := by
  refine ⟨fun h ↦ ?_, ?_, twin_isMigrated, fun h ↦ ?_⟩
  · have hcarried := h Tables.ascii sgp1Env (photoRequest "scola".toList)
      ["scola".toList] sharedPhotoReads
      ⟨"users".toList, "photo".toList, some 2, "a.png".toList⟩ (by decide)
      ⟨by decide, ⟨"scola".toList, "a.png".toList, 5, none, none⟩, by decide,
        by decide⟩
    obtain ⟨m, hm, _, _, hid⟩ := hcarried
    have hall : ∀ m ∈ (reconcile Tables.ascii sgp1Env (photoRequest "scola".toList)
        ["scola".toList] sharedPhotoReads).matched, m.id = some 1 := by decide
    rw [hall m hm] at hid
    exact absurd hid (by decide)
  · intro ref href
    simp only [twinReads, List.flatten_cons, List.flatten_nil, List.append_nil, List.map_cons,
      List.map_nil, List.mem_cons, List.not_mem_nil, or_false] at href
    have hmatched : ∃ m ∈ (reconcile Tables.ascii sgp1Env twinRequest ["scola".toList]
        twinReads).matched, m.table = "files".toList ∧ m.column = "file".toList ∧
          m.id = some ['7'] := by decide
    obtain ⟨m, hm, htable, hcolumn, hid⟩ := hmatched
    rcases href with rfl | rfl
    · exact ⟨m, hm, htable, hcolumn, hid⟩
    · exact ⟨m, hm, htable, hcolumn, hid⟩
  · have hscanned : IsScanned twinRequest twinReads id twinMigration fileMapping "file".toList
        "id".toList 1 (pathRow 1 ['7'] "/a.png".toList) :=
      ⟨List.mem_singleton.mpr rfl, rfl, rfl, by simp [twinReads]⟩
    have hleft : ReferencesMatched Tables.ascii sgp1Env twinRequest ["scola".toList] twinReads
        (referenceOf id fileMapping "file".toList "id".toList
          (pathRow 1 ['7'] "/a.png".toList)) := ⟨by decide, by decide⟩
    obtain ⟨update, hupdate, hcell⟩ := h fileMapping _ _ 1 _ _ hscanned rfl hleft
    obtain rfl := List.mem_singleton.mp hupdate
    exact absurd hcell (by decide)

end StorageReconciler
