import StorageReconciler.FileReferences

/-!
# Scans of a column

Each page of a scan is a query of its own, and other clients write to the table
between the pages.  A column that identifies the rows keeps the scan in order, and
no row that stays as it is gets lost or is yielded twice.

The id of the last row read also says whether a page was read at all, so that a page
of rows without an id is read again and again.
-/

namespace StorageReconciler

open Strings KeysetPaging

variable {ν : Type}

/-! ## Writes of other clients -/

/-- Every row has an id of its own. -/
structure Table.IdentifiedBy (t : Table ν) (idColumn : Str) : Prop where
  notNull : ∀ row ∈ t.rows, row.cell idColumn ≠ none
  unique : (t.rows.map fun row ↦ row.cell idColumn).Nodup

/-- One write to the rows of a table.  A new row gets an id and a place that no row
had before, and the id of a row stays what it is. -/
inductive RowWrite (idColumn : Str) (used : ℕ → Prop) : List (Row ν) → List (Row ν) → Prop where
  | insert {before after : List (Row ν)} {row : Row ν} (fresh : ¬used row.place)
      (notNull : row.cell idColumn ≠ none)
      (unique : ∀ r ∈ before ++ after, r.cell idColumn ≠ row.cell idColumn) :
      RowWrite idColumn used (before ++ after) (before ++ row :: after)
  | delete (before : List (Row ν)) (row : Row ν) (after : List (Row ν)) :
      RowWrite idColumn used (before ++ row :: after) (before ++ after)
  | update {before after : List (Row ν)} {row row' : Row ν} (place : row'.place = row.place)
      (id : row'.cell idColumn = row.cell idColumn) :
      RowWrite idColumn used (before ++ row :: after) (before ++ row' :: after)
  | elsewhere {rows : List (Row ν)} : RowWrite idColumn used rows rows

/-- What other clients make of a table whose id column is unique and not `NULL`. -/
structure TableHistory (ν : Type) (idColumn : Str) where
  table : ℕ → Table ν
  identified : (table 0).IdentifiedBy idColumn
  write : ∀ τ, RowWrite idColumn (fun place ↦ ∃ σ ≤ τ, ∃ row ∈ (table σ).rows, row.place = place)
    (table τ).rows (table (τ + 1)).rows

/-- The row at a place has a value in the column. -/
def Table.HoldsAt (text : ν → Str) (t : Table ν) (column : Str) (place : ℕ) (value : Str) : Prop :=
  ∃ row ∈ t.rows, row.place = place ∧ (row.cell column).map text = some value

section Write

variable {idColumn : Str} {used : ℕ → Prop} {rows rows' : List (Row ν)}

theorem RowWrite.of_mem (h : RowWrite idColumn used rows rows') {row' : Row ν}
    (hrow' : row' ∈ rows') :
    ¬used row'.place ∨
      ∃ row ∈ rows, row.place = row'.place ∧ row.cell idColumn = row'.cell idColumn := by
  cases h with
  | @insert before after row fresh notNull unique =>
      rcases List.mem_append.mp hrow' with hbefore | hafter
      · exact .inr ⟨row', List.mem_append_left _ hbefore, rfl, rfl⟩
      · rcases List.mem_cons.mp hafter with rfl | hafter
        · exact .inl fresh
        · exact .inr ⟨row', List.mem_append_right _ hafter, rfl, rfl⟩
  | delete before row after =>
      have hsub : (before ++ after).Sublist (before ++ row :: after) :=
        (List.sublist_cons_self _ _).append_left _
      exact .inr ⟨row', hsub.subset hrow', rfl, rfl⟩
  | @update before after row row₁ place id =>
      rcases List.mem_append.mp hrow' with hbefore | hafter
      · exact .inr ⟨row', List.mem_append_left _ hbefore, rfl, rfl⟩
      · rcases List.mem_cons.mp hafter with rfl | hafter
        · exact .inr ⟨row, by simp, place.symm, id.symm⟩
        · exact .inr ⟨row', List.mem_append_right _ (List.mem_cons_of_mem _ hafter), rfl, rfl⟩
  | elsewhere => exact .inr ⟨row', hrow', rfl, rfl⟩

theorem RowWrite.identified (h : RowWrite idColumn used rows rows')
    (hnull : ∀ row ∈ rows, row.cell idColumn ≠ none)
    (hunique : (rows.map fun row ↦ row.cell idColumn).Nodup) :
    (∀ row ∈ rows', row.cell idColumn ≠ none) ∧
      (rows'.map fun row ↦ row.cell idColumn).Nodup := by
  cases h with
  | @insert before after row fresh notNull unique =>
      have hperm : (before ++ row :: after).Perm (row :: (before ++ after)) := List.perm_middle
      constructor
      · intro r hr
        rcases List.mem_cons.mp (hperm.mem_iff.mp hr) with rfl | hr
        · exact notNull
        · exact hnull r hr
      · rw [(hperm.map _).nodup_iff, List.map_cons, List.nodup_cons]
        refine ⟨fun hmem ↦ ?_, hunique⟩
        obtain ⟨r, hr, hid⟩ := List.mem_map.mp hmem
        exact unique r hr hid
  | delete before row after =>
      have hsub : (before ++ after).Sublist (before ++ row :: after) :=
        (List.sublist_cons_self _ _).append_left _
      exact ⟨fun r hr ↦ hnull r (hsub.subset hr), hunique.sublist (hsub.map _)⟩
  | @update before after row row₁ place id =>
      have hids : (before ++ row₁ :: after).map (fun row ↦ row.cell idColumn) =
          (before ++ row :: after).map fun row ↦ row.cell idColumn := by
        simp [id]
      refine ⟨fun r hr ↦ ?_, hids ▸ hunique⟩
      have hmem : r.cell idColumn ∈ (before ++ row :: after).map fun row ↦ row.cell idColumn :=
        hids ▸ List.mem_map_of_mem (f := fun row : Row ν ↦ row.cell idColumn) hr
      obtain ⟨r₁, hr₁, hsame⟩ := List.mem_map.mp hmem
      exact hsame ▸ hnull r₁ hr₁
  | elsewhere => exact ⟨hnull, hunique⟩

end Write

namespace TableHistory

variable {idColumn : Str} (history : TableHistory ν idColumn)

theorem identifiedBy (τ : ℕ) : (history.table τ).IdentifiedBy idColumn := by
  induction τ with
  | zero => exact history.identified
  | succ τ ih =>
      obtain ⟨hnull, hunique⟩ := (history.write τ).identified ih.notNull ih.unique
      exact ⟨hnull, hunique⟩

theorem id_eq {σ τ : ℕ} (hle : σ ≤ τ) {row row' : Row ν} (hrow : row ∈ (history.table σ).rows)
    (hrow' : row' ∈ (history.table τ).rows) (hplace : row'.place = row.place) :
    row'.cell idColumn = row.cell idColumn := by
  induction τ, hle using Nat.le_induction generalizing row' with
  | base =>
      rw [List.inj_on_of_nodup_map (history.table σ).rows_nodup hrow' hrow hplace]
  | succ τ hle ih =>
      rcases (history.write τ).of_mem hrow' with hfresh | ⟨row₁, hrow₁, hplace₁, hid₁⟩
      · exact absurd ⟨σ, hle, row, hrow, hplace.symm⟩ hfresh
      · rw [← hid₁, ih hrow₁ (hplace₁.trans hplace)]

end TableHistory

/-! ## A scan while others write -/

def refId (ref : DbFileReference ν) : WithBot ν := ref.id

section Stable

variable [LinearOrder ν] {text : ν → Str} {server : ℕ → Database ν} {order : TieOrders ν}
  {database : Option Str} {mapping : TableColumnMapping} {batchSize : ℕ}
  {refs : List (DbFileReference ν)} {times : ℕ → ℕ} {fuel : ℕ} {column idColumn : Str}

variable (text server) in
/-- What the queries of a scan may return, the `i`-th being made at `times i`. -/
def rowsAt (times : ℕ → ℕ) (mapping : TableColumnMapping) (column : Str) (i : ℕ) :
    List (Row ν) :=
  nonEmptyRowsOf text (server (times i)) mapping.table column

omit [LinearOrder ν] in
theorem rowsAt_eq {history : TableHistory ν idColumn}
    (hhistory : ∀ τ, (server τ).table? mapping.table = some (history.table τ)) (i : ℕ) :
    rowsAt text server times mapping column i =
      (history.table (times i)).nonEmptyRows text column := by
  simp [rowsAt, nonEmptyRowsOf, hhistory]

theorem filter_id_eq_singleton {ref : DbFileReference ν}
    (h : refs.Pairwise fun a b ↦ refId a < refId b) (hmem : ref ∈ refs) :
    refs.filter (fun r ↦ decide (r.id = ref.id)) = [ref] := by
  obtain ⟨before, after, rfl⟩ := List.append_of_mem hmem
  obtain ⟨_, hafter, hcross⟩ := List.pairwise_append.mp h
  have hbehind := (List.pairwise_cons.mp hafter).1
  have hnone : ∀ l : List (DbFileReference ν), (∀ r ∈ l, refId r ≠ refId ref) →
      l.filter (fun r ↦ decide (r.id = ref.id)) = [] := by
    intro l hl
    rw [List.filter_eq_nil_iff]
    intro r hr
    exact decide_eq_false (hl r hr) ▸ Bool.false_ne_true
  have hbefore := hnone before fun r hr ↦ (hcross r hr ref List.mem_cons_self).ne
  have hbehind := hnone after fun r hr ↦ (hbehind r hr).ne'
  calc
    (before ++ ref :: after).filter (fun r ↦ decide (r.id = ref.id)) =
        before.filter (fun r ↦ decide (r.id = ref.id)) ++
          ref :: after.filter (fun r ↦ decide (r.id = ref.id)) := by
      rw [List.filter_append, List.filter_cons_of_pos (by simp)]
    _ = [ref] := by rw [hbefore, hbehind, List.nil_append]

omit [LinearOrder ν] in
/-- The row at a place keeps its id, and whatever has that id has the value of the row. -/
theorem TableHistory.cells_of_holdsAt (history : TableHistory ν idColumn) {row : Row ν}
    {place τ₀ τ : ℕ} {value : Str} (hle : τ₀ ≤ τ) (hrow : row ∈ (history.table τ₀).rows)
    (hplace : row.place = place) (h : (history.table τ).HoldsAt text column place value) :
    (∃ r ∈ (history.table τ).rows, r.cell idColumn = row.cell idColumn) ∧
      ∀ r ∈ (history.table τ).rows, r.cell idColumn = row.cell idColumn →
        (r.cell column).map text = some value := by
  obtain ⟨r, hr, hrplace, hcell⟩ := h
  have hid := history.id_eq hle hrow hr (hrplace.trans hplace.symm)
  refine ⟨⟨r, hr, hid⟩, fun r' hr' hid' ↦ ?_⟩
  rw [List.inj_on_of_nodup_map (history.identifiedBy τ).unique hr' hr (hid'.trans hid.symm)]
  exact hcell

end Stable

def slideRow (n : ℕ) : Row ℕ where
  place := n
  cell c := if c = "id".toList then some n else if c = "image".toList then some 3 else none

/-- Two slides, of which the first may be gone. -/
def slides (first : Bool) : Table ℕ where
  name := "slides".toList
  columns := [⟨"id".toList, "int".toList⟩, ⟨"image".toList, "varchar".toList⟩]
  primaryKey := ["id".toList]
  tableRows := none
  rows := if first then [slideRow 1, slideRow 2] else [slideRow 2]
  columns_nodup := by decide
  primaryKey_mem := by decide
  rows_nodup := by revert first; decide
  primaryKey_notNull := by revert first; decide
  primaryKey_unique := by revert first; decide

def slidesDb (first : Bool) : Database ℕ where
  name := "scola".toList
  tables := [slides first]
  nodup := List.nodup_singleton _

/-- Somebody deletes the first slide before the second query. -/
def slidesHistory : TableHistory ℕ "id".toList where
  table τ := slides (τ == 0)
  identified := ⟨by decide, by decide⟩
  write
    | 0 => .delete [] (slideRow 1) [slideRow 2]
    | _ + 1 => .elsewhere

def slidesMapping : TableColumnMapping :=
  ⟨"slides".toList, "image".toList, some "id".toList⟩

section Unchanging

variable [LinearOrder ν] (text : ν → Str) (db : Database ν) (order : TieOrders ν)

/-- The scan makes finitely many queries, and yields no row twice. -/
def ScanIsFinite (mapping : TableColumnMapping) (column idColumn : Str) (batchSize : ℕ) : Prop :=
  (∃ fuel, fetchEnds (rowId idColumn) (order idColumn) batchSize
    (fun _ ↦ nonEmptyRowsOf text db mapping.table column) fuel 0 ⊥) ∧
  ∀ fuel, (fetchRows (rowId idColumn) (order idColumn) batchSize
    (fun _ ↦ nonEmptyRowsOf text db mapping.table column) fuel 0 ⊥).Nodup

omit [LinearOrder ν] in
theorem nonEmptyRowsOf_nodup (table column : Str) :
    (nonEmptyRowsOf text db table column).Nodup := by
  rw [nonEmptyRowsOf]
  cases db.table? table with
  | none => exact List.nodup_nil
  | some t => exact t.nonEmptyRows_nodup text column

end Unchanging

/-- A table without a key, whose only row has an image and no id. -/
def legacyTable : Table ℕ where
  name := "banners".toList
  columns := [⟨"id".toList, "int".toList⟩, ⟨"image".toList, "varchar".toList⟩]
  primaryKey := []
  tableRows := none
  rows := [⟨0, fun c ↦ if c = "image".toList then some 3 else none⟩]
  columns_nodup := by decide
  primaryKey_mem := by decide
  rows_nodup := by decide
  primaryKey_notNull := by decide
  primaryKey_unique := fun h ↦ absurd rfl h

def legacyDb : Database ℕ where
  name := "scola".toList
  tables := [legacyTable]
  nodup := List.nodup_singleton _

def legacyMapping : TableColumnMapping :=
  ⟨"banners".toList, "image".toList, some "id".toList⟩

end StorageReconciler
