import Mathlib.Order.WithBot
import StorageReconciler.Foundations.OrderedDict
import StorageReconciler.Foundations.Patterns
import StorageReconciler.Types

/-!
# Databases and the discovery of their columns

A database as `information_schema` describes it, and the columns that are taken
for file references or rich text by their names and types.  The type of the
stored values is a parameter; its order is the one the server compares by.
-/

namespace StorageReconciler

open Strings Patterns

/-- A character of an identifier after its first. -/
def isIdentifierChar (c : Char) : Bool := c.isAlphanum || c == '_' || c == '-'

/-- `$`: the end of the text, or a newline that ends it. -/
def isAtEnd (rest : Str) : Bool := rest == [] || rest == ['\n']

/-- `^[a-zA-Z_][a-zA-Z0-9_-]*$` -/
def isValidIdentifier : Str → Bool
  | [] => false
  | c :: rest => (c.isAlpha || c == '_') && isAtEnd (rest.dropWhile isIdentifierChar)

def assertValidIdentifier (name label : Str) : Except Str Unit :=
  if isValidIdentifier name then .ok ()
  else .error ("Invalid ".toList ++ label ++ " name: \"".toList ++ name ++ "\"".toList)

structure ColumnDef where
  name : Str
  dataType : Str
  deriving DecidableEq

/-- Names of columns are compared without regard to case. -/
def sameName (a b : Str) : Bool := decide (a.map Char.toLower = b.map Char.toLower)

/-- A row has a place in its table, and a cell in each column, `none` for `NULL`. -/
structure Row (ν : Type*) where
  place : ℕ
  cell : Str → Option ν

structure Table (ν : Type*) where
  name : Str
  columns : List ColumnDef
  primaryKey : List Str
  tableRows : Option ℕ
  rows : List (Row ν)
  columns_nodup : (columns.map fun c ↦ c.name.map Char.toLower).Nodup
  primaryKey_mem : ∀ c ∈ primaryKey, c ∈ columns.map ColumnDef.name
  rows_nodup : (rows.map Row.place).Nodup
  primaryKey_notNull : ∀ row ∈ rows, ∀ c ∈ primaryKey, row.cell c ≠ none
  primaryKey_unique : primaryKey ≠ [] → (rows.map fun row ↦ primaryKey.map row.cell).Nodup

/-- The tables in the order of their names. -/
structure Database (ν : Type*) where
  name : Str
  tables : List (Table ν)
  nodup : (tables.map Table.name).Nodup

variable {ν : Type*}

/-- The column a query means by a name. -/
def Table.column? (t : Table ν) (name : Str) : Option Str :=
  (t.columns.map ColumnDef.name).find? (sameName name)

def Database.table? (db : Database ν) (name : Str) : Option (Table ν) :=
  db.tables.find? fun t ↦ decide (t.name = name)

/-! ## Patterns of names -/

/-- `^literal$` -/
def matchWhole (literal text : Str) : Bool := (matchLiteral literal text).any isAtEnd

/-- `literal$`, sought in the text. -/
def searchEnd (literal text : Str) : Bool := text.tails.any (matchWhole literal)

/-- `^literal`, sought in the text. -/
def searchStart (literal text : Str) : Bool := (matchLiteral literal text).isSome

def anyLiteral (test : Str → Str → Bool) (literals : List String) (text : Str) : Bool :=
  literals.any fun l ↦ test l.toList text

def stringDataTypes : List String :=
  ["varchar", "char", "text", "tinytext", "mediumtext", "longtext"]

def contentDataTypes : List String := ["text", "tinytext", "mediumtext", "longtext", "json"]

def isAssetColumn : Str → Bool :=
  anyLiteral searchLiteral
    ["image", "photo", "avatar", "attachment", "logo", "banner", "cover", "picture", "thumbnail",
      "document", "foto", "gambar", "lampiran", "dokumen", "file", "capture"]

def isGenericPathColumn : Str → Bool := anyLiteral matchWhole ["url", "path", "link"]

def isAssetTableHint : Str → Bool :=
  anyLiteral searchLiteral ["file", "document", "attachment", "media", "asset", "assignment"]

def isExcludedColumn (column : Str) : Bool :=
  anyLiteral searchLiteral
      ["size", "extension", "limit", "style", "count", "status", "width", "height", "duration",
        "mime", "position", "alignment", "logout"] column ||
    anyLiteral matchWhole ["type", "uploaded"] column ||
    anyLiteral searchEnd ["_type", "_by", "_at", "_id"] column ||
    anyLiteral searchStart ["total_", "max_", "show_", "print_", "id_"] column

def isExcludedTable : Str → Bool := searchLiteral "menu".toList

def excludeColumnOverride : List Str := ["id_file".toList]

def isExcludedContentTable : Str → Bool :=
  anyLiteral matchWhole
    ["activity_log", "authentication_log", "log_activity", "log_score", "log_score_final",
      "course_quiz_log", "users_notification_log", "mod_penilaian_log_nilai",
      "mod_penilaian_log_aktifitas"]

/-! ## Discovery -/

structure IntrospectedColumn where
  tableName : Str
  columnName : Str
  dataType : Str
  deriving DecidableEq

structure Introspection where
  columns : List IntrospectedColumn
  primaryKeyByTable : OrderedDict Str Str
  rowCountByTable : OrderedDict Str ℕ

def introspectColumns (db : Database ν) : Introspection where
  columns := db.tables.flatMap fun t ↦ t.columns.map fun c ↦ ⟨t.name, c.name, c.dataType⟩
  primaryKeyByTable :=
    (db.tables.flatMap fun t ↦ t.primaryKey.map fun c ↦ (t.name, c)).foldl
      (fun d e ↦ d.setdefault e.1 e.2) OrderedDict.empty
  rowCountByTable :=
    (db.tables.map fun t ↦ (t.name, t.tableRows.getD 0)).foldl
      (fun d e ↦ d.insert e.1 e.2) OrderedDict.empty

def mappingOf (info : Introspection) (col : IntrospectedColumn) : TableColumnMapping where
  table := col.tableName
  column := col.columnName
  idColumn := some ((info.primaryKeyByTable.get? col.tableName).getD "id".toList)

def isFileColumn (T : Tables) (col : IntrospectedColumn) : Bool :=
  anyLiteral (fun l text ↦ l == text) stringDataTypes (lower T col.dataType) &&
    !isExcludedTable col.tableName &&
    (excludeColumnOverride.contains (lower T col.columnName) ||
      !isExcludedColumn col.columnName) &&
    (isAssetColumn col.columnName ||
      isGenericPathColumn col.columnName && isAssetTableHint col.tableName)

def isContentColumn (T : Tables) (maxRows : ℕ) (info : Introspection)
    (col : IntrospectedColumn) : Bool :=
  anyLiteral (fun l text ↦ l == text) contentDataTypes (lower T col.dataType) &&
    !isExcludedTable col.tableName && !isExcludedContentTable col.tableName &&
    decide ((info.rowCountByTable.get? col.tableName).getD 0 < maxRows)

def discoverFileColumns (T : Tables) (db : Database ν) : Except Str (List TableColumnMapping) := do
  assertValidIdentifier db.name "database".toList
  let info := introspectColumns db
  return (info.columns.filter (isFileColumn T)).map (mappingOf info)

def discoverContentColumns (T : Tables) (maxContentScanTableRows : ℕ) (db : Database ν) :
    Except Str (List TableColumnMapping) := do
  assertValidIdentifier db.name "database".toList
  let info := introspectColumns db
  return (info.columns.filter (isContentColumn T maxContentScanTableRows info)).map (mappingOf info)

/-- One of the two discoveries builds the mapping. -/
def IsDiscovered (T : Tables) (maxRows : ℕ) (db : Database ν) (mapping : TableColumnMapping) :
    Prop :=
  (∃ mappings, discoverFileColumns T db = .ok mappings ∧ mapping ∈ mappings) ∨
    ∃ mappings, discoverContentColumns T maxRows db = .ok mappings ∧ mapping ∈ mappings

/-! ## What is discovered -/

theorem primaryKeyByTable_get? {db : Database ν} {t : Table ν} (ht : t ∈ db.tables) :
    (introspectColumns db).primaryKeyByTable.get? t.name = t.primaryKey.head? := by
  have hother : ∀ tables : List (Table ν), t.name ∉ tables.map Table.name →
      (tables.flatMap fun t ↦ t.primaryKey.map fun c ↦ (t.name, c)).find?
        (fun e ↦ decide (e.1 = t.name)) = none := by
    intro tables hname
    rw [List.find?_eq_none]
    intro e he
    obtain ⟨t', ht', hmem⟩ := List.mem_flatMap.mp he
    obtain ⟨c, _, rfl⟩ := List.mem_map.mp hmem
    have hne : t'.name ≠ t.name := fun h ↦ hname (h ▸ List.mem_map_of_mem ht')
    simpa using hne
  have hown : (t.primaryKey.map fun c ↦ (t.name, c)).find? (fun e ↦ decide (e.1 = t.name)) =
      t.primaryKey.head?.map fun c ↦ (t.name, c) := by
    cases t.primaryKey <;> simp
  obtain ⟨before, after, hsplit⟩ := List.append_of_mem ht
  have hnodup := db.nodup
  rw [hsplit, List.map_append, List.map_cons] at hnodup
  have hbefore : t.name ∉ before.map Table.name := fun h ↦
    (List.nodup_append.mp hnodup).2.2 _ h _ List.mem_cons_self rfl
  have hafter : t.name ∉ after.map Table.name :=
    (List.nodup_cons.mp (List.nodup_append.mp hnodup).2.1).1
  have hfind : (db.tables.flatMap fun t ↦ t.primaryKey.map fun c ↦ (t.name, c)).find?
      (fun e ↦ decide (e.1 = t.name)) = t.primaryKey.head?.map fun c ↦ (t.name, c) := by
    rw [hsplit, List.flatMap_append, List.flatMap_cons, List.find?_append, List.find?_append,
      hother _ hbefore, hother _ hafter, hown]
    simp
  calc
    (introspectColumns db).primaryKeyByTable.get? t.name =
        (t.primaryKey.head?.map fun c ↦ (t.name, c)).map Prod.snd := by
      rw [introspectColumns, OrderedDict.get?_foldl_setdefault, hfind]
      rfl
    _ = t.primaryKey.head? := by
      rw [Option.map_map]
      exact Option.map_id'

theorem IsDiscovered.exists_column {T : Tables} {maxRows : ℕ} {db : Database ν}
    {mapping : TableColumnMapping} (h : IsDiscovered T maxRows db mapping) :
    isValidIdentifier db.name = true ∧ ∃ t ∈ db.tables, ∃ c ∈ t.columns,
      mapping = ⟨t.name, c.name, some (t.primaryKey.head?.getD "id".toList)⟩ := by
  have hcolumn : ∀ col ∈ (introspectColumns db).columns, ∃ t ∈ db.tables, ∃ c ∈ t.columns,
      mappingOf (introspectColumns db) col =
        ⟨t.name, c.name, some (t.primaryKey.head?.getD "id".toList)⟩ := by
    intro col hcol
    obtain ⟨t, ht, hmem⟩ := List.mem_flatMap.mp hcol
    obtain ⟨c, hc, rfl⟩ := List.mem_map.mp hmem
    exact ⟨t, ht, c, hc, by simp only [mappingOf, primaryKeyByTable_get? ht]⟩
  have hlist : ∀ (test : IntrospectedColumn → Bool) (result : Except Str _),
      result = (do
        assertValidIdentifier db.name "database".toList
        return ((introspectColumns db).columns.filter test).map
          (mappingOf (introspectColumns db))) →
      ∀ mappings, result = .ok mappings → mapping ∈ mappings →
      isValidIdentifier db.name = true ∧ ∃ t ∈ db.tables, ∃ c ∈ t.columns,
        mapping = ⟨t.name, c.name, some (t.primaryKey.head?.getD "id".toList)⟩ := by
    rintro test result rfl mappings hok hmem
    unfold assertValidIdentifier at hok
    split_ifs at hok with hvalid
    · obtain rfl := Except.ok.inj hok
      obtain ⟨col, hcol, rfl⟩ := List.mem_map.mp hmem
      exact ⟨hvalid, hcolumn col (List.mem_of_mem_filter hcol)⟩
    · exact absurd hok (by simp [bind, Except.bind])
  rcases h with ⟨mappings, hok, hmem⟩ | ⟨mappings, hok, hmem⟩
  · exact hlist _ _ rfl mappings hok hmem
  · exact hlist _ _ rfl mappings hok hmem

theorem Database.table?_name {db : Database ν} {t : Table ν} (ht : t ∈ db.tables) :
    db.table? t.name = some t := by
  rw [Database.table?]
  cases hfind : db.tables.find? fun t' ↦ decide (t'.name = t.name) with
  | none => exact absurd (List.find?_eq_none.mp hfind t ht) (by simp)
  | some t' =>
      have hname : t'.name = t.name := by simpa using List.find?_some hfind
      rw [List.inj_on_of_nodup_map db.nodup (List.mem_of_find?_eq_some hfind) ht hname]

theorem Table.column?_name {t : Table ν} {c : ColumnDef} (hc : c ∈ t.columns) :
    t.column? c.name = some c.name := by
  rw [Table.column?]
  cases hfind : (t.columns.map ColumnDef.name).find? (sameName c.name) with
  | none =>
      have hno := List.find?_eq_none.mp hfind c.name (List.mem_map_of_mem hc)
      simp [sameName] at hno
  | some name =>
      obtain ⟨c', hc', rfl⟩ := List.mem_map.mp (List.mem_of_find?_eq_some hfind)
      have hname : c.name.map Char.toLower = c'.name.map Char.toLower := by
        simpa [sameName] using List.find?_some hfind
      rw [List.inj_on_of_nodup_map t.columns_nodup hc hc' hname]

end StorageReconciler
