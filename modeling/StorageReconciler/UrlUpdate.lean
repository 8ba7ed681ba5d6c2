import StorageReconciler.Checkpoints
import StorageReconciler.Foundations.Fallible

/-!
# Updating migrated URLs

Every item names a cell by table, column and row id, the text it is expected to
hold and the one to put there.  The item is judged by one row that is read, and
the update itself writes to every row that still fits.
-/

namespace StorageReconciler

open Strings Fallible

structure UpdateItem (ν : Type) where
  sourcePath : Str
  destinationUrl : Str
  table : Str
  column : Str
  rowId : ν
  deriving DecidableEq

inductive UpdateOutcome where
  | updated
  | alreadyUpdated
  | conflict
  | missing
  deriving DecidableEq

structure UpdateCounts where
  updated : ℕ
  alreadyUpdated : ℕ
  conflict : ℕ
  missing : ℕ
  total : ℕ
  deriving DecidableEq

def countsOf (outcomes : List UpdateOutcome) (total : ℕ) : UpdateCounts where
  updated := outcomes.count .updated
  alreadyUpdated := outcomes.count .alreadyUpdated
  conflict := outcomes.count .conflict
  missing := outcomes.count .missing
  total := total

/-- How a server reads texts, which values of a column `=` takes for the same, and
which rows the keys of a table let it hold. -/
structure Server (ν ω : Type) where
  text : Str → ν
  weight : Str → Str → ν → ω
  admits : Str → List (Row ν) → Except Str Unit

/-- The rows of each table. -/
abbrev TableRows (ν : Type) := Str → List (Row ν)

variable {ν ω : Type}

def Database.contents (db : Database ν) : TableRows ν := fun name ↦
  ((db.table? name).map Table.rows).getD []

/-! ## Targets -/

/-- The columns of a table, and which of them belong to its primary key. -/
def columnKeys (db : Database ν) (table : Str) : List (Str × Bool) :=
  match db.table? table with
  | none => []
  | some t => t.columns.map fun c ↦ (c.name, decide (c.name ∈ t.primaryKey))

/-- The id column of a table and the names of its columns. -/
def resolveTarget (db : Database ν) (table : Str) : Except Str (Str × List Str) :=
  let columns := columnKeys db table
  let names := columns.map Prod.fst
  if columns = [] then
    .error ("Table \"".toList ++ db.name ++ '.' ::
      (table ++ "\" does not exist or is not accessible".toList))
  else
    match (columns.filter Prod.snd).map Prod.fst, decide ("id".toList ∈ names) with
    | [key], _ => .ok (key, names)
    | [], true => .ok ("id".toList, names)
    | _, _ =>
        .error ("Table \"".toList ++ db.name ++ '.' ::
          (table ++ "\" needs one primary key (or an id column) ".toList ++
            "to safely match the report's Row ID".toList))

abbrev Targets := OrderedDict Str (Str × List Str)

def checkColumn (db : Database ν) (targets : Targets) (item : UpdateItem ν) : Except Str Unit :=
  match targets.get? item.table with
  | none => .error item.table
  | some (_, names) =>
      if item.column ∈ names then .ok ()
      else .error ("Column \"".toList ++ db.name ++ '.' ::
        (item.table ++ '.' :: (item.column ++ "\" does not exist".toList)))

def resolveTargets (db : Database ν) (items : List (UpdateItem ν)) : Except Str Targets := do
  let targets ← fill (resolveTarget db) (sorted (items.map UpdateItem.table).dedup)
    OrderedDict.empty
  items.forM (checkColumn db targets)
  return targets

/-- What is checked before anything is written. -/
def validateItems (db : Database ν) (items : List (UpdateItem ν)) : Except Str Targets := do
  items.forM fun item ↦ do
    assertValidIdentifier item.table "table".toList
    assertValidIdentifier item.column "column".toList
  resolveTargets db items

theorem mem_tables {items : List (UpdateItem ν)} {table : Str} :
    table ∈ sorted (items.map UpdateItem.table).dedup ↔ ∃ item ∈ items, item.table = table := by
  simp [mem_sorted]

theorem target_of_validateItems {db : Database ν} {items : List (UpdateItem ν)}
    {targets : Targets} (h : validateItems db items = .ok targets) {item : UpdateItem ν}
    (hitem : item ∈ items) :
    ∃ target, resolveTarget db item.table = .ok target ∧
      targets.get? item.table = some target := by
  obtain ⟨_, _, h⟩ := bind_eq_ok_iff.mp h
  obtain ⟨targets₁, hfill, h⟩ := bind_eq_ok_iff.mp h
  obtain ⟨_, _, hpure⟩ := bind_eq_ok_iff.mp h
  obtain rfl := Except.ok.inj hpure
  exact (get?_of_fill hfill).1 (mem_tables.mpr ⟨item, hitem, rfl⟩)

theorem validateItems_of_subset {db : Database ν} {items part : List (UpdateItem ν)}
    {targets : Targets} (h : validateItems db items = .ok targets)
    (hpart : ∀ item ∈ part, item ∈ items) :
    ∃ targets', validateItems db part = .ok targets' ∧
      ∀ item ∈ part, targets'.get? item.table = targets.get? item.table := by
  have hresolve : ∀ table ∈ sorted (part.map UpdateItem.table).dedup, ∃ target,
      resolveTarget db table = .ok target := by
    intro table htable
    obtain ⟨item, hitem, rfl⟩ := mem_tables.mp htable
    obtain ⟨target, htarget, _⟩ := target_of_validateItems h (hpart item hitem)
    exact ⟨target, htarget⟩
  obtain ⟨targets', hfill'⟩ := exists_fill hresolve OrderedDict.empty
  have hsame : ∀ item ∈ part, targets'.get? item.table = targets.get? item.table := by
    intro item hitem
    obtain ⟨target, htarget, hget⟩ := target_of_validateItems h (hpart item hitem)
    obtain ⟨target', htarget', hget'⟩ :=
      (get?_of_fill hfill').1 (mem_tables.mpr ⟨item, hitem, rfl⟩)
    rw [hget, hget', Except.ok.inj (htarget'.symm.trans htarget)]
  obtain ⟨_, hnames, h⟩ := bind_eq_ok_iff.mp h
  obtain ⟨targets₁, _, h⟩ := bind_eq_ok_iff.mp h
  obtain ⟨_, hcolumns, hpure⟩ := bind_eq_ok_iff.mp h
  obtain rfl := Except.ok.inj hpure
  refine ⟨targets', bind_eq_ok_iff.mpr ⟨(), ?_, bind_eq_ok_iff.mpr ⟨targets', hfill',
    bind_eq_ok_iff.mpr ⟨(), ?_, rfl⟩⟩⟩, hsame⟩
  · exact forM_eq_ok_iff.mpr fun item hitem ↦ forM_eq_ok_iff.mp hnames item (hpart item hitem)
  · apply forM_eq_ok_iff.mpr
    intro item hitem
    rw [checkColumn, hsame item hitem]
    exact forM_eq_ok_iff.mp hcolumns item (hpart item hitem)

/-! ## One item -/

section Item

variable [DecidableEq ν] [DecidableEq ω] (server : Server ν ω) (idColumn : Str)
  (item : UpdateItem ν)

/-- The value of a cell is `=` to another one; `NULL` is to none. -/
def Server.same (table column : Str) (cell : Option ν) (value : ν) : Bool :=
  match cell with
  | none => false
  | some v => decide (server.weight table column v = server.weight table column value)

/-- The row fits the condition of the query. -/
def isAddressed (row : Row ν) : Bool :=
  server.same item.table idColumn (row.cell idColumn) item.rowId

/-- The row fits the condition of the update. -/
def isMatched (row : Row ν) : Bool :=
  isAddressed server idColumn item row &&
    server.same item.table item.column (row.cell item.column) (server.text item.sourcePath)

/-- What follows from the value that is read; nothing does if the update is due. -/
def judge (currentValue : Option ν) : Option UpdateOutcome :=
  if currentValue = some (server.text item.destinationUrl) then some .alreadyUpdated
  else if currentValue ≠ some (server.text item.sourcePath) then some .conflict
  else none

def Row.setCell (row : Row ν) (column : Str) (value : ν) : Row ν :=
  { row with cell := Function.update row.cell column (some value) }

def updateRow (row : Row ν) : Row ν :=
  if isMatched server idColumn item row then
    row.setCell item.column (server.text item.destinationUrl)
  else row

def updatedRows (contents : TableRows ν) : List (Row ν) :=
  (contents item.table).map (updateRow server idColumn item)

def applyUpdate (contents : TableRows ν) : TableRows ν :=
  Function.update contents item.table (updatedRows server idColumn item contents)

/-- The rows an update counts: those it matches that do not hold the new value yet. -/
def changedRows (contents : TableRows ν) : List (Row ν) :=
  (contents item.table).filter fun row ↦ isMatched server idColumn item row &&
    decide (row.cell item.column ≠ some (server.text item.destinationUrl))

def updateOutcome (rowcount : ℕ) : UpdateOutcome := if rowcount = 1 then .updated else .conflict

end Item

/-! ## All items -/

section Run

variable [DecidableEq ν] [DecidableEq ω] (server : Server ν ω) (targets : Targets)

def updateOne (item : UpdateItem ν) (contents : TableRows ν) :
    Except Str (TableRows ν × UpdateOutcome) :=
  match targets.get? item.table with
  | none => .error item.table
  | some (idColumn, _) =>
      match (contents item.table).find? (isAddressed server idColumn item) with
      | none => .ok (contents, .missing)
      | some row =>
          match judge server item (row.cell item.column) with
          | some outcome => .ok (contents, outcome)
          | none => do
              server.admits item.table (updatedRows server idColumn item contents)
              return (applyUpdate server idColumn item contents,
                updateOutcome (changedRows server idColumn item contents).length)

/-- The items one after the other, with nobody else writing. -/
def updateItems : List (UpdateItem ν) → TableRows ν →
    Except Str (TableRows ν × List UpdateOutcome)
  | [], contents => .ok (contents, [])
  | item :: rest, contents => do
      let (contents', outcome) ← updateOne server targets item contents
      let (final, outcomes) ← updateItems rest contents'
      return (final, outcome :: outcomes)

def updateMigratedUrls (db : Database ν) (items : List (UpdateItem ν)) (contents : TableRows ν) :
    Except Str (TableRows ν × UpdateCounts) := do
  assertValidIdentifier db.name "database".toList
  if items = [] then return (contents, countsOf [] 0)
  let targets ← validateItems db items
  let (final, outcomes) ← updateItems server targets items contents
  return (final, countsOf outcomes items.length)

end Run

/-! ## What is judged and what is written -/

section Facts

variable {server : Server ν ω} {idColumn : Str} {item : UpdateItem ν} {row : Row ν}
  {contents : TableRows ν}

theorem judge_eq_none_iff [DecidableEq ν] {currentValue : Option ν} :
    judge server item currentValue = none ↔
      currentValue = some (server.text item.sourcePath) ∧
        currentValue ≠ some (server.text item.destinationUrl) := by
  unfold judge
  split_ifs with hdest hsource
  · simp [hdest]
  · simp [hsource]
  · exact iff_of_true rfl ⟨not_not.mp hsource, hdest⟩

theorem ne_updated_of_judge [DecidableEq ν] {currentValue : Option ν} {outcome : UpdateOutcome}
    (h : judge server item currentValue = some outcome) : outcome ≠ .updated := by
  rintro rfl
  unfold judge at h
  split_ifs at h <;> cases h

variable [DecidableEq ω]

theorem isAddressed_iff : isAddressed server idColumn item row = true ↔
    (row.cell idColumn).map (server.weight item.table idColumn) =
      some (server.weight item.table idColumn item.rowId) := by
  rw [isAddressed]
  cases row.cell idColumn with
  | none => simp [Server.same]
  | some v => simp [Server.same]

theorem isAddressed_of_isMatched (h : isMatched server idColumn item row = true) :
    isAddressed server idColumn item row = true := by
  rw [isMatched, Bool.and_eq_true] at h
  exact h.1

@[simp] theorem updateRow_place : (updateRow server idColumn item row).place = row.place := by
  unfold updateRow
  split_ifs <;> rfl

theorem updateRow_cell_of_ne {column : Str} (h : column ≠ item.column) :
    (updateRow server idColumn item row).cell column = row.cell column := by
  unfold updateRow
  split_ifs
  · exact Function.update_of_ne h _ _
  · rfl

theorem updateRow_cell (h : isMatched server idColumn item row = true) :
    (updateRow server idColumn item row).cell item.column =
      some (server.text item.destinationUrl) := by
  rw [updateRow, if_pos h]
  exact Function.update_self ..

theorem updateRow_of_not_isMatched (h : isMatched server idColumn item row = false) :
    updateRow server idColumn item row = row := by
  simp [updateRow, h]

@[simp] theorem applyUpdate_self :
    applyUpdate server idColumn item contents item.table =
      updatedRows server idColumn item contents := Function.update_self ..

theorem getElem?_applyUpdate {i : ℕ} (h : (contents item.table)[i]? = some row) :
    (applyUpdate server idColumn item contents item.table)[i]? =
      some (updateRow server idColumn item row) := by
  rw [applyUpdate_self, updatedRows, List.getElem?_map, h, Option.map_some]

theorem applyUpdate_of_ne {table : Str} (h : table ≠ item.table) :
    applyUpdate server idColumn item contents table = contents table :=
  Function.update_of_ne h _ _

variable [DecidableEq ν]

theorem mem_changedRows :
    row ∈ changedRows server idColumn item contents ↔ row ∈ contents item.table ∧
      isMatched server idColumn item row = true ∧
        row.cell item.column ≠ some (server.text item.destinationUrl) := by
  simp [changedRows]

/-- The update changes the one column, in the rows that it counts. -/
theorem updateRow_cell_ne_iff (hrow : row ∈ contents item.table) {column : Str} :
    (updateRow server idColumn item row).cell column ≠ row.cell column ↔
      column = item.column ∧ row ∈ changedRows server idColumn item contents := by
  rw [mem_changedRows]
  by_cases hcolumn : column = item.column
  · subst hcolumn
    cases hmatch : isMatched server idColumn item row with
    | false => simp [updateRow_of_not_isMatched hmatch]
    | true => simp [updateRow_cell hmatch, hrow, eq_comm]
  · simp [updateRow_cell_of_ne hcolumn, hcolumn]

/-- What the processing of one item can come to. -/
theorem updateOne_cases {targets : Targets} {contents' : TableRows ν} {outcome : UpdateOutcome}
    (h : updateOne server targets item contents = .ok (contents', outcome)) :
    ∃ idColumn names, targets.get? item.table = some (idColumn, names) ∧
      ((contents item.table).find? (isAddressed server idColumn item) = none ∧
          contents' = contents ∧ outcome = .missing ∨
        ∃ row, (contents item.table).find? (isAddressed server idColumn item) = some row ∧
          (judge server item (row.cell item.column) = some outcome ∧ contents' = contents ∨
            judge server item (row.cell item.column) = none ∧
              server.admits item.table (updatedRows server idColumn item contents) = .ok () ∧
              contents' = applyUpdate server idColumn item contents ∧
              outcome = updateOutcome (changedRows server idColumn item contents).length)) := by
  unfold updateOne at h
  cases htarget : targets.get? item.table with
  | none => simp [htarget] at h
  | some target =>
      obtain ⟨idColumn, names⟩ := target
      refine ⟨idColumn, names, rfl, ?_⟩
      simp only [htarget] at h
      cases hfind : (contents item.table).find? (isAddressed server idColumn item) with
      | none =>
          simp only [hfind, Except.ok.injEq, Prod.mk.injEq] at h
          exact .inl ⟨rfl, h.1.symm, h.2.symm⟩
      | some row =>
          refine .inr ⟨row, rfl, ?_⟩
          simp only [hfind] at h
          cases hjudge : judge server item (row.cell item.column) with
          | some found =>
              simp only [hjudge, Except.ok.injEq, Prod.mk.injEq] at h
              exact .inl ⟨congrArg some h.2, h.1.symm⟩
          | none =>
              simp only [hjudge, bind_eq_ok_iff] at h
              obtain ⟨_, hadmits, hwritten⟩ := h
              obtain ⟨hcontents, houtcome⟩ := Prod.mk.inj (Except.ok.inj hwritten)
              exact .inr ⟨rfl, hadmits, hcontents.symm, houtcome.symm⟩

theorem missing_of_find?_eq_none {targets : Targets} {names : List Str}
    {contents' : TableRows ν} {outcome : UpdateOutcome}
    (htarget : targets.get? item.table = some (idColumn, names))
    (hnone : (contents item.table).find? (isAddressed server idColumn item) = none)
    (hone : updateOne server targets item contents = .ok (contents', outcome)) :
    outcome = .missing := by
  simp only [updateOne, htarget, hnone] at hone
  exact (Prod.mk.inj (Except.ok.inj hone)).2.symm

theorem updateItems_cons_eq_ok {targets : Targets} {rest : List (UpdateItem ν)}
    {final : TableRows ν} {outcomes : List UpdateOutcome}
    (h : updateItems server targets (item :: rest) contents = .ok (final, outcomes)) :
    ∃ contents' outcome outcomes',
      updateOne server targets item contents = .ok (contents', outcome) ∧
      updateItems server targets rest contents' = .ok (final, outcomes') ∧
      outcomes = outcome :: outcomes' := by
  rw [updateItems, bind_eq_ok_iff] at h
  obtain ⟨⟨contents', outcome⟩, hone, h⟩ := h
  obtain ⟨⟨final', outcomes'⟩, hrest, hpure⟩ := bind_eq_ok_iff.mp h
  obtain ⟨rfl, rfl⟩ := Prod.mk.inj (Except.ok.inj hpure)
  exact ⟨contents', outcome, outcomes', hone, hrest, rfl⟩

theorem updateItems_cons_of_eq_ok {targets : Targets} {rest : List (UpdateItem ν)}
    {contents' final : TableRows ν} {outcome : UpdateOutcome} {outcomes : List UpdateOutcome}
    (hone : updateOne server targets item contents = .ok (contents', outcome))
    (hrest : updateItems server targets rest contents' = .ok (final, outcomes)) :
    updateItems server targets (item :: rest) contents = .ok (final, outcome :: outcomes) := by
  rw [updateItems]
  exact bind_eq_ok_iff.mpr ⟨_, hone, bind_eq_ok_iff.mpr ⟨_, hrest, rfl⟩⟩

theorem updateItems_append_eq_ok {targets : Targets} {before after : List (UpdateItem ν)}
    {final : TableRows ν} {outcomes : List UpdateOutcome}
    (h : updateItems server targets (before ++ after) contents = .ok (final, outcomes)) :
    ∃ contents' outcomes₁ outcomes₂,
      updateItems server targets before contents = .ok (contents', outcomes₁) ∧
      updateItems server targets after contents' = .ok (final, outcomes₂) ∧
      outcomes = outcomes₁ ++ outcomes₂ := by
  induction before generalizing contents outcomes with
  | nil => exact ⟨contents, [], outcomes, rfl, h, rfl⟩
  | cons item before ih =>
      obtain ⟨contents₁, outcome, rest, hone, hrest, rfl⟩ := updateItems_cons_eq_ok h
      obtain ⟨contents', outcomes₁, outcomes₂, hbefore, hafter, rfl⟩ := ih hrest
      refine ⟨contents', outcome :: outcomes₁, outcomes₂, ?_, hafter, rfl⟩
      exact updateItems_cons_of_eq_ok hone hbefore

theorem updateItems_concat_of_eq_ok {targets : Targets} {before : List (UpdateItem ν)}
    {contents₁ contents₂ : TableRows ν} {outcomes : List UpdateOutcome} {outcome : UpdateOutcome}
    (hbefore : updateItems server targets before contents = .ok (contents₁, outcomes))
    (hone : updateOne server targets item contents₁ = .ok (contents₂, outcome)) :
    updateItems server targets (before ++ [item]) contents =
      .ok (contents₂, outcomes ++ [outcome]) := by
  induction before generalizing contents outcomes with
  | nil =>
      obtain ⟨rfl, rfl⟩ := Prod.mk.inj (Except.ok.inj hbefore)
      exact updateItems_cons_of_eq_ok hone rfl
  | cons first rest ih =>
      obtain ⟨_, _, _, hfirst, hrest, rfl⟩ := updateItems_cons_eq_ok hbefore
      exact updateItems_cons_of_eq_ok hfirst (ih hrest)

theorem updateItems_congr {targets targets' : Targets} {items : List (UpdateItem ν)}
    (h : ∀ item ∈ items, targets'.get? item.table = targets.get? item.table)
    (contents : TableRows ν) :
    updateItems server targets' items contents = updateItems server targets items contents := by
  induction items generalizing contents with
  | nil => rfl
  | cons item rest ih =>
      have hrest := ih fun other hother ↦ h other (List.mem_cons_of_mem item hother)
      simp only [updateItems, updateOne, h item List.mem_cons_self, hrest]

end Facts

/-! ## A plain server -/

/-- Values are texts, compared as they are, and any rows are admitted. -/
def plainServer : Server Str Str where
  text := id
  weight := fun _ _ value ↦ value
  admits := fun _ _ ↦ .ok ()

def pathRow (place : ℕ) (rowId path : Str) : Row Str where
  place := place
  cell := fun column ↦
    if column = "id".toList then some rowId
    else if column = "file".toList then some path
    else none

/-- The table `files` with an `id` column that is no key. -/
def legacyDatabase (rows : List (Row Str)) (h : (rows.map Row.place).Nodup) : Database Str where
  name := "app".toList
  tables :=
    [{ name := "files".toList
       columns := [⟨"id".toList, "int".toList⟩, ⟨"file".toList, "varchar".toList⟩]
       primaryKey := []
       tableRows := none
       rows := rows
       columns_nodup := by decide
       primaryKey_mem := fun _ h ↦ absurd h List.not_mem_nil
       rows_nodup := h
       primaryKey_notNull := fun _ _ _ h ↦ absurd h List.not_mem_nil
       primaryKey_unique := fun h ↦ absurd rfl h }]
  nodup := List.nodup_singleton _

def pathItem (rowId sourcePath destinationUrl : Str) : UpdateItem Str :=
  ⟨sourcePath, destinationUrl, "files".toList, "file".toList, rowId⟩

def singleDatabase : Database Str := legacyDatabase [pathRow 0 ['7'] ['a']] (by decide)

def fileTargets : Targets :=
  OrderedDict.empty.insert "files".toList ("id".toList, ["id".toList, "file".toList])

def pathItems : List (UpdateItem Str) := [pathItem ['7'] ['a'] ['b']]

end StorageReconciler
