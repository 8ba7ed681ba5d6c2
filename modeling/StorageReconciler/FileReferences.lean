import StorageReconciler.Database
import StorageReconciler.Foundations.KeysetPaging

/-!
# Reading the references of a column

The non-empty values of a mapped column, read in pages along its id column.
Which rows are read depends on how the ids repeat at the page boundaries, and
so on whether the id column identifies the rows.
-/

namespace StorageReconciler

open Strings KeysetPaging

variable {ν : Type}

inductive FetchError where
  | invalidName (message : Str)
  | unknownTable (name : Str)
  | unknownColumn (name : Str)
  deriving DecidableEq

def checkName (name label : Str) : Except FetchError Unit :=
  match assertValidIdentifier name label with
  | .ok () => .ok ()
  | .error message => .error (.invalidName message)

/-- The names are checked before the first query, a default database is not named. -/
def checkNames (database : Option Str) (mapping : TableColumnMapping) : Except FetchError Unit := do
  checkName mapping.table "table".toList
  checkName mapping.column "column".toList
  checkName (idColumnOf mapping) "id column".toList
  match database with
  | some (c :: s) => checkName (c :: s) "database".toList
  | _ => .ok ()

/-- The column and the id column as the server knows them. -/
def resolveColumns (db : Database ν) (mapping : TableColumnMapping) :
    Except FetchError (Str × Str) :=
  match db.table? mapping.table with
  | none => .error (.unknownTable mapping.table)
  | some t =>
      match t.column? mapping.column with
      | none => .error (.unknownColumn mapping.column)
      | some column =>
          match t.column? (idColumnOf mapping) with
          | none => .error (.unknownColumn (idColumnOf mapping))
          | some idColumn => .ok (column, idColumn)

def resolveMapping (db : Database ν) (database : Option Str) (mapping : TableColumnMapping) :
    Except FetchError (Str × Str) := do
  checkNames database mapping
  resolveColumns db mapping

section Read

variable (text : ν → Str)

def hasValue (column : Str) (row : Row ν) : Bool := (row.cell column).any fun v ↦ text v != []

/-- `NULL` is below every id. -/
def rowId (idColumn : Str) (row : Row ν) : WithBot ν := row.cell idColumn

/-- How the server breaks ties between the ids of a column. -/
abbrev TieOrders (ν : Type) [LinearOrder ν] : Type :=
  ∀ idColumn, TieOrder (rowId idColumn : Row ν → WithBot ν)

def Table.nonEmptyRows (t : Table ν) (column : Str) : List (Row ν) :=
  t.rows.filter (hasValue text column)

/-- What the queries find, as long as the table is there. -/
def nonEmptyRowsOf (db : Database ν) (table column : Str) : List (Row ν) :=
  ((db.table? table).map fun t ↦ t.nonEmptyRows text column).getD []

variable [LinearOrder ν]

/-- The rows of a mapping that at most `fuel` queries return, the database being
`snapshots i` at the `i`-th query. -/
def readRows (snapshots : ℕ → Database ν) (order : TieOrders ν) (database : Option Str)
    (mapping : TableColumnMapping) (batchSize fuel : ℕ) : Except FetchError (List (Row ν)) := do
  let (column, idColumn) ← resolveMapping (snapshots 0) database mapping
  return fetchRows (rowId idColumn) (order idColumn) batchSize
    (fun i ↦ nonEmptyRowsOf text (snapshots i) mapping.table column) fuel 0 ⊥

def referenceOf (mapping : TableColumnMapping) (column idColumn : Str) (row : Row ν) :
    DbFileReference ν where
  table := mapping.table
  column := mapping.column
  id := row.cell idColumn
  value := ((row.cell column).map text).getD []

def fetchFileReferences (snapshots : ℕ → Database ν) (order : TieOrders ν)
    (database : Option Str) (mapping : TableColumnMapping) (batchSize fuel : ℕ) :
    Except FetchError (List (DbFileReference ν)) := do
  let (column, idColumn) ← resolveMapping (snapshots 0) database mapping
  let rows ← readRows text snapshots order database mapping batchSize fuel
  return rows.map (referenceOf text mapping column idColumn)

/-- The references that a complete reading of the mapping yields. -/
def IsRead (snapshots : ℕ → Database ν) (order : TieOrders ν) (database : Option Str)
    (mapping : TableColumnMapping) (batchSize : ℕ) (refs : List (DbFileReference ν)) : Prop :=
  ∃ column idColumn fuel, resolveMapping (snapshots 0) database mapping = .ok (column, idColumn) ∧
    fetchEnds (rowId idColumn) (order idColumn) batchSize
      (fun i ↦ nonEmptyRowsOf text (snapshots i) mapping.table column) fuel 0 ⊥ ∧
    fetchFileReferences text snapshots order database mapping batchSize fuel = .ok refs

end Read

/-! ## Mappings that resolve -/

theorem checkName_of_valid {name : Str} (label : Str) (h : isValidIdentifier name = true) :
    checkName name label = .ok () := by
  simp [checkName, assertValidIdentifier, h]

theorem checkName_of_invalid {name : Str} (label : Str) (h : ¬isValidIdentifier name = true) :
    ∃ e, checkName name label = .error e := by
  simp [checkName, assertValidIdentifier, h]

theorem checkNames_eq_ok_iff {database : Str} (hdb : isValidIdentifier database = true)
    {mapping : TableColumnMapping} :
    checkNames (some database) mapping = .ok () ↔
      isValidIdentifier mapping.table = true ∧ isValidIdentifier mapping.column = true ∧
        isValidIdentifier (idColumnOf mapping) = true := by
  have hlast : (match some database with
      | some (c :: s) => checkName (c :: s) "database".toList
      | _ => .ok ()) = (.ok () : Except FetchError Unit) := by
    cases database with
    | nil => rfl
    | cons c s => exact checkName_of_valid _ hdb
  unfold checkNames
  rw [hlast]
  by_cases htable : isValidIdentifier mapping.table = true
  · by_cases hcolumn : isValidIdentifier mapping.column = true
    · by_cases hid : isValidIdentifier (idColumnOf mapping) = true
      · simp [checkName_of_valid _ htable, checkName_of_valid _ hcolumn, checkName_of_valid _ hid,
          htable, hcolumn, hid, bind, Except.bind]
      · obtain ⟨e, he⟩ := checkName_of_invalid "id column".toList hid
        simp only [checkName_of_valid _ htable, checkName_of_valid _ hcolumn, he, hid, bind,
          Except.bind, reduceCtorEq, Bool.false_eq_true, and_false]
    · obtain ⟨e, he⟩ := checkName_of_invalid "column".toList hcolumn
      simp only [checkName_of_valid _ htable, he, hcolumn, bind, Except.bind, reduceCtorEq,
        Bool.false_eq_true, false_and, and_false]
  · obtain ⟨e, he⟩ := checkName_of_invalid "table".toList htable
    simp only [he, htable, bind, Except.bind, reduceCtorEq, Bool.false_eq_true, false_and]

theorem resolveMapping_eq_ok_iff {db : Database ν} {t : Table ν} (ht : t ∈ db.tables)
    (hdb : isValidIdentifier db.name = true) {mapping : TableColumnMapping}
    (hname : mapping.table = t.name) {column idColumn : Str} :
    resolveMapping db (some db.name) mapping = .ok (column, idColumn) ↔
      (isValidIdentifier mapping.table = true ∧ isValidIdentifier mapping.column = true ∧
        isValidIdentifier (idColumnOf mapping) = true) ∧
      t.column? mapping.column = some column ∧ t.column? (idColumnOf mapping) = some idColumn := by
  have hcolumns : resolveColumns db mapping = .ok (column, idColumn) ↔
      t.column? mapping.column = some column ∧
        t.column? (idColumnOf mapping) = some idColumn := by
    rw [resolveColumns, hname, Database.table?_name ht]
    cases hcolumn : t.column? mapping.column with
    | none => simp [hcolumn]
    | some column' => cases hid : t.column? (idColumnOf mapping) <;> simp [hcolumn, hid]
  rw [resolveMapping, ← checkNames_eq_ok_iff hdb, ← hcolumns]
  cases hcheck : checkNames (some db.name) mapping with
  | error e => simp [bind, Except.bind]
  | ok u => simp [bind, Except.bind]

theorem valid_of_checkNames {database : Option Str} {mapping : TableColumnMapping}
    (h : checkNames database mapping = .ok ()) :
    isValidIdentifier mapping.table = true ∧ isValidIdentifier mapping.column = true ∧
      isValidIdentifier (idColumnOf mapping) = true := by
  unfold checkNames at h
  by_cases htable : isValidIdentifier mapping.table = true
  · by_cases hcolumn : isValidIdentifier mapping.column = true
    · refine ⟨htable, hcolumn, ?_⟩
      by_contra hid
      obtain ⟨e, he⟩ := checkName_of_invalid "id column".toList hid
      rw [checkName_of_valid _ htable, checkName_of_valid _ hcolumn, he] at h
      exact nomatch h
    · obtain ⟨e, he⟩ := checkName_of_invalid "column".toList hcolumn
      rw [checkName_of_valid _ htable, he] at h
      exact nomatch h
  · obtain ⟨e, he⟩ := checkName_of_invalid "table".toList htable
    rw [he] at h
    exact nomatch h

/-! ## Complete readings -/

section Complete

variable [LinearOrder ν] {text : ν → Str} {snapshots : ℕ → Database ν} {order : TieOrders ν}
  {database : Option Str} {mapping mapping' : TableColumnMapping} {batchSize : ℕ}
  {refs refs' : List (DbFileReference ν)}

theorem fetchFileReferences_of_resolve {fuel : ℕ} {column idColumn : Str}
    (h : resolveMapping (snapshots 0) database mapping = .ok (column, idColumn)) :
    fetchFileReferences text snapshots order database mapping batchSize fuel =
      .ok ((fetchRows (rowId idColumn) (order idColumn) batchSize
        (fun i ↦ nonEmptyRowsOf text (snapshots i) mapping.table column) fuel 0 ⊥).map
          (referenceOf text mapping column idColumn)) := by
  rw [fetchFileReferences, readRows, h]
  rfl

/-- What a complete reading yields is determined by the contents. -/
theorem IsRead.unique (h : IsRead text snapshots order database mapping batchSize refs)
    (h' : IsRead text snapshots order database mapping batchSize refs') : refs = refs' := by
  obtain ⟨column, idColumn, fuel, hresolve, hends, hfetch⟩ := h
  obtain ⟨column', idColumn', fuel', hresolve', hends', hfetch'⟩ := h'
  obtain ⟨rfl, rfl⟩ := Prod.mk.inj (Except.ok.inj (hresolve.symm.trans hresolve'))
  rw [fetchFileReferences_of_resolve hresolve] at hfetch hfetch'
  rw [fetchRows_eq_of_ends hends hends'] at hfetch
  exact Except.ok.inj (hfetch.symm.trans hfetch')

theorem IsRead.congr (htable : mapping.table = mapping'.table)
    (hcolumn : mapping.column = mapping'.column) (hid : idColumnOf mapping = idColumnOf mapping')
    (h : IsRead text snapshots order database mapping batchSize refs) :
    IsRead text snapshots order database mapping' batchSize refs := by
  obtain ⟨column, idColumn, fuel, hresolve, hends, hfetch⟩ := h
  have hsame : resolveMapping (snapshots 0) database mapping =
      resolveMapping (snapshots 0) database mapping' := by
    simp only [resolveMapping, checkNames, resolveColumns, htable, hcolumn, hid]
  have href : referenceOf text mapping = referenceOf text mapping' := by
    funext column idColumn row
    simp only [referenceOf, htable, hcolumn]
  rw [fetchFileReferences_of_resolve hresolve, htable, href] at hfetch
  rw [hsame] at hresolve
  refine ⟨column, idColumn, fuel, hresolve, htable ▸ hends, ?_⟩
  rw [fetchFileReferences_of_resolve hresolve]
  exact hfetch

theorem IsRead.valid (h : IsRead text snapshots order database mapping batchSize refs) :
    isValidIdentifier mapping.table = true ∧ isValidIdentifier mapping.column = true ∧
      isValidIdentifier (idColumnOf mapping) = true := by
  obtain ⟨column, idColumn, fuel, hresolve, _, _⟩ := h
  have hnames : checkNames database mapping = .ok () := by
    rw [resolveMapping] at hresolve
    cases hcheck : checkNames database mapping with
    | error e =>
        rw [hcheck] at hresolve
        exact nomatch hresolve
    | ok u => rfl
  exact valid_of_checkNames hnames

end Complete

/-! ## Which rows are read -/

theorem Table.nonEmptyRows_nodup (text : ν → Str) (t : Table ν) (column : Str) :
    (t.nonEmptyRows text column).Nodup :=
  (List.Nodup.of_map _ t.rows_nodup).filter _

section Unchanging

variable [LinearOrder ν] (text : ν → Str)

theorem readRows_of_resolve {snapshots : ℕ → Database ν} {order : TieOrders ν}
    {database : Option Str} {mapping : TableColumnMapping} {batchSize fuel : ℕ}
    {column idColumn : Str}
    (h : resolveMapping (snapshots 0) database mapping = .ok (column, idColumn)) :
    readRows text snapshots order database mapping batchSize fuel =
      .ok (fetchRows (rowId idColumn) (order idColumn) batchSize
        (fun i ↦ nonEmptyRowsOf text (snapshots i) mapping.table column) fuel 0 ⊥) := by
  rw [readRows, h]
  rfl

theorem readRows_of_not_resolve {snapshots : ℕ → Database ν} {order : TieOrders ν}
    {database : Option Str} {mapping : TableColumnMapping} {batchSize fuel : ℕ}
    (h : ∀ columns, resolveMapping (snapshots 0) database mapping ≠ .ok columns)
    (rows : List (Row ν)) :
    readRows text snapshots order database mapping batchSize fuel ≠ .ok rows := by
  rw [readRows]
  cases hresolve : resolveMapping (snapshots 0) database mapping with
  | error e => simp [bind, Except.bind]
  | ok columns => exact absurd hresolve (h columns)

/-- Every non-empty value of the column is read, whatever the order of ties. -/
def ReadsEveryValue (db : Database ν) (t : Table ν) (mapping : TableColumnMapping)
    (batchSize : ℕ) : Prop :=
  ∀ order : TieOrders ν, ∀ row ∈ t.nonEmptyRows text mapping.column,
    ∃ fuel rows, readRows text (fun _ ↦ db) order (some db.name) mapping batchSize fuel = .ok rows ∧
      row ∈ rows

/-- The names are accepted, the id column is there, and the ids change from each
page to the next and are not missing at its end. -/
def IsReadInPages (t : Table ν) (mapping : TableColumnMapping) (batchSize : ℕ) : Prop :=
  (isValidIdentifier mapping.table = true ∧ isValidIdentifier mapping.column = true ∧
    isValidIdentifier (idColumnOf mapping) = true) ∧
  ∃ idColumn, t.column? (idColumnOf mapping) = some idColumn ∧
    PagesApart batchSize (sortedKeys (rowId idColumn) (t.nonEmptyRows text mapping.column))

variable {text}

theorem readsEveryValue_iff {db : Database ν} {t : Table ν} (ht : t ∈ db.tables)
    (hdb : isValidIdentifier db.name = true) {mapping : TableColumnMapping}
    (hname : mapping.table = t.name) (hcolumn : t.column? mapping.column = some mapping.column)
    {batchSize : ℕ} (hbatch : 0 < batchSize) :
    ReadsEveryValue text db t mapping batchSize ↔
      t.nonEmptyRows text mapping.column = [] ∨ IsReadInPages text t mapping batchSize := by
  have hfound : nonEmptyRowsOf text db mapping.table mapping.column =
      t.nonEmptyRows text mapping.column := by
    rw [nonEmptyRowsOf, hname, Database.table?_name ht]
    rfl
  have hnodup := t.nonEmptyRows_nodup text mapping.column
  constructor
  · intro h
    rw [or_iff_not_imp_left]
    intro hne
    obtain ⟨row, hrow⟩ := List.exists_mem_of_ne_nil _ hne
    have hresolve : ∃ columns, resolveMapping db (some db.name) mapping = .ok columns := by
      obtain ⟨fuel, rows, hread, _⟩ := h (fun c ↦ .stable (rowId c)) row hrow
      by_contra hno
      exact readRows_of_not_resolve text (fun columns hc ↦ hno ⟨columns, hc⟩) rows hread
    obtain ⟨⟨column, idColumn⟩, hresolve⟩ := hresolve
    obtain ⟨hvalid, hc, hid⟩ := (resolveMapping_eq_ok_iff ht hdb hname).mp hresolve
    obtain rfl := Option.some.inj (hc.symm.trans hcolumn)
    refine ⟨hvalid, idColumn, hid, ?_⟩
    apply (reads_every_iff hbatch hnodup).mp
    intro order row hrow
    -- one order of ties for the id column, any for the others
    obtain ⟨fuel, rows, hread, hmem⟩ := h
      (fun c ↦ if hc : c = idColumn then hc ▸ order else .stable (rowId c)) row hrow
    rw [readRows_of_resolve text hresolve] at hread
    obtain rfl := Except.ok.inj hread
    refine ⟨fuel, ?_⟩
    simpa [hfound] using hmem
  · rintro (hnil | ⟨hvalid, idColumn, hid, hpages⟩) order row hrow
    · rw [hnil] at hrow
      exact absurd hrow List.not_mem_nil
    · have hresolve := (resolveMapping_eq_ok_iff ht hdb hname).mpr ⟨hvalid, hcolumn, hid⟩
      obtain ⟨fuel, hfuel⟩ := (reads_every_iff hbatch hnodup).mpr hpages (order idColumn) row hrow
      refine ⟨fuel, _, readRows_of_resolve text hresolve, ?_⟩
      simpa only [hfound] using hfuel

theorem Table.sortedKeys_nodup (text : ν → Str) {t : Table ν} {c : Str} (hkey : t.primaryKey = [c])
    (column : Str) :
    (sortedKeys (rowId c) (t.nonEmptyRows text column)).Nodup ∧
      ⊥ ∉ sortedKeys (rowId c) (t.nonEmptyRows text column) := by
  have hperm : (sortedKeys (rowId c) (t.nonEmptyRows text column)).Perm
      ((t.nonEmptyRows text column).map (rowId c)) := List.perm_insertionSort _ _
  constructor
  · have hunique := t.primaryKey_unique (by simp [hkey])
    have hcells : (t.rows.map (rowId c)).Nodup := by
      rw [hkey] at hunique
      have hsingle : (t.rows.map fun row ↦ [c].map row.cell) =
          (t.rows.map (rowId c)).map fun v : WithBot ν ↦ [v] := by
        rw [List.map_map]
        rfl
      exact List.Nodup.of_map _ (hsingle ▸ hunique)
    exact hperm.nodup_iff.mpr (hcells.sublist (List.filter_sublist.map _))
  · intro hmem
    obtain ⟨row, hrow, hbot⟩ := List.mem_map.mp (hperm.mem_iff.mp hmem)
    exact t.primaryKey_notNull row (List.mem_of_mem_filter hrow) c (by simp [hkey]) hbot

/-- A primary key of one column identifies the rows, so that every page boundary is good. -/
theorem isReadInPages_of_primaryKey {t : Table ν} {c : Str} {mapping : TableColumnMapping}
    (hkey : t.primaryKey = [c]) (hmapping : mapping.idColumn = some c)
    (htable : isValidIdentifier mapping.table = true)
    (hcolumn : isValidIdentifier mapping.column = true) (hid : isValidIdentifier c = true)
    {batchSize : ℕ} (hbatch : 0 < batchSize) : IsReadInPages text t mapping batchSize := by
  have hidColumn : idColumnOf mapping = c := by
    cases c with
    | nil => exact absurd hid (by decide)
    | cons a c => simp [idColumnOf, hmapping]
  obtain ⟨def', hdef, hdefname⟩ := List.mem_map.mp (t.primaryKey_mem c (by simp [hkey]))
  obtain ⟨hnodup, hbot⟩ := Table.sortedKeys_nodup text hkey mapping.column
  subst hdefname
  exact ⟨⟨htable, hcolumn, hidColumn ▸ hid⟩, def'.name, hidColumn ▸ Table.column?_name hdef,
    pagesApart_of_nodup hbatch hnodup hbot⟩

end Unchanging

/-! ## A composite key -/

/-- The photo of a user in a slot. -/
def userPhotoRow (slot : ℕ) : Row ℕ where
  place := slot
  cell c :=
    if c = "user_id".toList then some 1
    else if c = "slot".toList then some slot
    else if c = "photo".toList then some 3
    else none

/-- One user with photos in two slots, the two columns being the key. -/
def userPhotos : Table ℕ where
  name := "user_photos".toList
  columns := [⟨"user_id".toList, "int".toList⟩, ⟨"slot".toList, "int".toList⟩,
    ⟨"photo".toList, "varchar".toList⟩]
  primaryKey := ["user_id".toList, "slot".toList]
  tableRows := none
  rows := [userPhotoRow 1, userPhotoRow 2]
  columns_nodup := by decide
  primaryKey_mem := by decide
  rows_nodup := by decide
  primaryKey_notNull := by decide
  primaryKey_unique := by decide

def userPhotosDb : Database ℕ where
  name := "scola".toList
  tables := [userPhotos]
  nodup := by simp

def userPhotosMapping : TableColumnMapping :=
  ⟨"user_photos".toList, "photo".toList, some "user_id".toList⟩

/-- Values are texts of their lengths. -/
def textOfLength (n : ℕ) : Str := List.replicate n 'x'

theorem userPhotos_discovered :
    IsDiscovered Tables.ascii 50000 userPhotosDb userPhotosMapping :=
  .inl ⟨[userPhotosMapping], by decide, List.mem_singleton.mpr rfl⟩

end StorageReconciler
