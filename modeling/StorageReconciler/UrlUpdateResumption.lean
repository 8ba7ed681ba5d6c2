import Mathlib.Data.List.Find
import Mathlib.Data.List.Pairwise
import StorageReconciler.UrlUpdate

/-!
# Resuming an interrupted update

An update that was cut off between two items is taken up with a list that has
the items not yet processed and any of the others.  What the items processed so
far have made of the rows depends on which they are, and not on their order, as
long as no item changes the id that its row is found by.
-/

namespace StorageReconciler

open Strings Fallible

variable {ν ω : Type} (server : Server ν ω) (targets : Targets)

/-! ## What is asked of the rows and the items -/

def idWeights (table idColumn : Str) (rows : List (Row ν)) : List ω :=
  rows.filterMap fun row ↦ (row.cell idColumn).map (server.weight table idColumn)

/-- No two rows of a table have the same id. -/
def UniqueIds (contents : TableRows ν) : Prop :=
  ∀ table idColumn names, targets.get? table = some (idColumn, names) →
    (idWeights server table idColumn (contents table)).Nodup

/-- Two items address different cells. -/
def IsApart (a b : UpdateItem ν) : Prop :=
  ∀ idColumn names, targets.get? a.table = some (idColumn, names) →
    a.table = b.table → a.column = b.column →
    server.weight a.table idColumn a.rowId ≠ server.weight a.table idColumn b.rowId

variable [DecidableEq ν] [DecidableEq ω]

/-- The item would update the cell of a row. -/
def isDue (table : Str) (row : Row ν) (column : Str) (item : UpdateItem ν) : Bool :=
  match targets.get? table with
  | none => false
  | some (idColumn, _) =>
      decide (item.table = table ∧ item.column = column) &&
        (isAddressed server idColumn item row &&
          decide (judge server item (row.cell column) = none))

/-- An item that updates the id column of its table puts an id there that is the same
to the server. -/
def KeepsIds (contents : TableRows ν) (items : List (UpdateItem ν)) : Prop :=
  ∀ item ∈ items, ∀ names, targets.get? item.table = some (item.column, names) →
    ∀ row ∈ contents item.table, isDue server targets item.table row item.column item = true →
      server.weight item.table item.column (server.text item.destinationUrl) =
        server.weight item.table item.column item.rowId

/-- However the update is cut off, and whatever is sent again beside the rest, it
ends with the same rows, and finds what was updated before. -/
def IsResumable (db : Database ν) (items : List (UpdateItem ν)) (final : TableRows ν) : Prop :=
  ∀ n contents outcomes resent,
    updateItems server targets (items.take n) db.contents = .ok (contents, outcomes) →
    (∀ item ∈ items.drop n, item ∈ resent) → (∀ item ∈ resent, item ∈ items) →
    ∃ targets' outcomes', validateItems db resent = .ok targets' ∧
      updateItems server targets' resent contents = .ok (final, outcomes') ∧
      ∀ (i j : ℕ) (item : UpdateItem ν), (items.take n)[i]? = some item →
        outcomes[i]? = some .updated → resent[j]? = some item →
        outcomes'[j]? = some .alreadyUpdated

/-! ## The rows after some of the items -/

section Settled

variable (contents : TableRows ν) (items processed : List (UpdateItem ν))

def settledCell (table : Str) (row : Row ν) (column : Str) : Option ν :=
  match items.find? fun item ↦
      decide (item ∈ processed) && isDue server targets table row column item with
  | some item => some (server.text item.destinationUrl)
  | none => row.cell column

def settledRow (table : Str) (row : Row ν) : Row ν :=
  { row with cell := settledCell server targets items processed table row }

/-- The rows after the items that are processed. -/
def settled : TableRows ν := fun table ↦
  (contents table).map (settledRow server targets items processed table)

def settledOutcome (item : UpdateItem ν) : UpdateOutcome :=
  match targets.get? item.table with
  | none => .missing
  | some (idColumn, _) =>
      match (contents item.table).find? (isAddressed server idColumn item) with
      | none => .missing
      | some row =>
          match judge server item (row.cell item.column) with
          | some outcome => outcome
          | none => if item ∈ processed then .alreadyUpdated else .updated

/-- No part of the items, applied in any order, is refused by the keys of a table. -/
def AdmitsEachPart (contents : TableRows ν) (items : List (UpdateItem ν)) : Prop :=
  ∀ part : List (UpdateItem ν), (∀ item ∈ part, item ∈ items) → ∀ item ∈ part,
    ∀ row ∈ contents item.table, isDue server targets item.table row item.column item = true →
      server.admits item.table (settled server targets contents items part item.table) = .ok ()

end Settled

/-! ## Which items are due -/

section Due

variable {server : Server ν ω} {targets : Targets} {contents : TableRows ν}
  {items processed processed' : List (UpdateItem ν)} {table column idColumn : Str}
  {names : List Str} {row : Row ν} {item : UpdateItem ν}

theorem isDue_iff (htarget : targets.get? table = some (idColumn, names)) :
    isDue server targets table row column item = true ↔
      item.table = table ∧ item.column = column ∧ isAddressed server idColumn item row = true ∧
        judge server item (row.cell column) = none := by
  simp [isDue, htarget, and_assoc]

theorem exists_target_of_isDue (h : isDue server targets table row column item = true) :
    ∃ idColumn names, targets.get? table = some (idColumn, names) := by
  cases htarget : targets.get? table with
  | none => simp [isDue, htarget] at h
  | some target => exact ⟨target.1, target.2, rfl⟩

omit [DecidableEq ν] in
theorem eq_of_same_cell (hapart : items.Pairwise (IsApart server targets)) {a b : UpdateItem ν}
    (ha : a ∈ items) (hb : b ∈ items)
    (htarget : targets.get? a.table = some (idColumn, names)) (htable : a.table = b.table)
    (hcolumn : a.column = b.column) (haddressed : isAddressed server idColumn a row = true)
    (haddressed' : isAddressed server idColumn b row = true) : a = b := by
  have hsame : server.weight a.table idColumn a.rowId = server.weight a.table idColumn b.rowId := by
    have h := isAddressed_iff.mp haddressed
    rw [htable, isAddressed_iff.mp haddressed', ← htable] at h
    exact (Option.some.inj h).symm
  have hsymmetric : Std.Symm (IsApart server targets) := by
    constructor
    intro x y h idColumn names htarget hxy hcolumn hweight
    rw [hxy] at htarget hweight
    exact h idColumn names htarget hxy.symm hcolumn.symm hweight.symm
  by_contra hne
  exact hapart.forall ha hb hne idColumn names htarget htable hcolumn hsame

theorem eq_of_isDue (hapart : items.Pairwise (IsApart server targets)) {a b : UpdateItem ν}
    (ha : a ∈ items) (hb : b ∈ items) (hdue : isDue server targets table row column a = true)
    (hdue' : isDue server targets table row column b = true) : a = b := by
  obtain ⟨idColumn, names, htarget⟩ := exists_target_of_isDue hdue
  obtain ⟨rfl, hcolumn, haddressed, _⟩ := (isDue_iff htarget).mp hdue
  obtain ⟨htable, hcolumn', haddressed', _⟩ := (isDue_iff htarget).mp hdue'
  exact eq_of_same_cell hapart ha hb htarget htable.symm (hcolumn.trans hcolumn'.symm) haddressed
    haddressed'

theorem settledCell_of_isDue (hapart : items.Pairwise (IsApart server targets))
    (hitem : item ∈ items) (hprocessed : item ∈ processed)
    (hdue : isDue server targets table row column item = true) :
    settledCell server targets items processed table row column =
      some (server.text item.destinationUrl) := by
  unfold settledCell
  cases hfind : items.find? fun item ↦
      decide (item ∈ processed) && isDue server targets table row column item with
  | none =>
      have hno := List.find?_eq_none.mp hfind item hitem
      simp [hprocessed, hdue] at hno
  | some other =>
      have hother := List.find?_some hfind
      rw [Bool.and_eq_true] at hother
      rw [eq_of_isDue hapart (List.mem_of_find?_eq_some hfind) hitem hother.2 hdue]

theorem settledCell_of_not_isDue
    (h : ∀ item ∈ items, item ∈ processed →
      isDue server targets table row column item = false) :
    settledCell server targets items processed table row column = row.cell column := by
  unfold settledCell
  rw [List.find?_eq_none.mpr]
  intro item hitem
  by_cases hprocessed : item ∈ processed
  · simp [h item hitem hprocessed]
  · simp [hprocessed]

theorem settledCell_congr
    (h : ∀ item ∈ items, isDue server targets table row column item = true →
      (item ∈ processed ↔ item ∈ processed')) :
    settledCell server targets items processed table row column =
      settledCell server targets items processed' table row column := by
  unfold settledCell
  congr 1
  apply List.find?_congr
  intro item hitem
  cases hdue : isDue server targets table row column item with
  | false => simp
  | true => simp [h item hitem hdue]

theorem settledRow_congr
    (h : ∀ column, ∀ item ∈ items, isDue server targets table row column item = true →
      (item ∈ processed ↔ item ∈ processed')) :
    settledRow server targets items processed table row =
      settledRow server targets items processed' table row := by
  simp only [settledRow, Row.mk.injEq, true_and]
  funext column
  exact settledCell_congr (h column)

theorem settled_congr
    (h : ∀ table, ∀ row ∈ contents table, ∀ column, ∀ item ∈ items,
      isDue server targets table row column item = true →
        (item ∈ processed ↔ item ∈ processed')) :
    settled server targets contents items processed =
      settled server targets contents items processed' := by
  funext table
  apply List.map_congr_left
  intro row hrow
  exact settledRow_congr (h table row hrow)

theorem settled_cons
    (h : item ∉ processed → ∀ row ∈ contents item.table,
      isDue server targets item.table row item.column item = false) :
    settled server targets contents items (item :: processed) =
      settled server targets contents items processed := by
  apply settled_congr
  intro table row hrow column other _ hdue
  by_cases hother : other = item
  · subst hother
    obtain ⟨_, _, htarget⟩ := exists_target_of_isDue hdue
    obtain ⟨rfl, rfl, _⟩ := (isDue_iff htarget).mp hdue
    have hprocessed : other ∈ processed := by
      by_contra hnew
      simp [h hnew row hrow] at hdue
    simp [hprocessed]
  · simp [hother]

theorem settled_nil : settled server targets contents items [] = contents := by
  funext table
  apply List.map_id''
  intro row
  simp only [settledRow]
  rw [show settledCell server targets items [] table row = row.cell from funext fun column ↦
    settledCell_of_not_isDue fun item _ hmem ↦ absurd hmem List.not_mem_nil]

end Due

/-! ## Rows that keep their ids -/

section Kept

variable {server : Server ν ω} {targets : Targets} {contents : TableRows ν}
  {items processed : List (UpdateItem ν)} {table column idColumn : Str}
  {names : List Str} {row : Row ν} {item : UpdateItem ν}

theorem settledCell_weight (hkeeps : KeepsIds server targets contents processed)
    (htarget : targets.get? table = some (idColumn, names)) (hrow : row ∈ contents table) :
    (settledCell server targets items processed table row idColumn).map
        (server.weight table idColumn) =
      (row.cell idColumn).map (server.weight table idColumn) := by
  unfold settledCell
  cases hfind : items.find? fun item ↦
      decide (item ∈ processed) && isDue server targets table row idColumn item with
  | none => rfl
  | some item =>
      have hitem := List.find?_some hfind
      rw [Bool.and_eq_true, decide_eq_true_eq] at hitem
      obtain ⟨hprocessed, hdue⟩ := hitem
      obtain ⟨rfl, rfl, haddressed, _⟩ := (isDue_iff htarget).mp hdue
      rw [isAddressed_iff.mp haddressed, Option.map_some,
        hkeeps item hprocessed names htarget row hrow hdue]

theorem isAddressed_settledRow (hkeeps : KeepsIds server targets contents processed)
    (htarget : targets.get? item.table = some (idColumn, names))
    (hrow : row ∈ contents item.table) :
    isAddressed server idColumn item (settledRow server targets items processed item.table row) =
      isAddressed server idColumn item row := by
  rw [Bool.eq_iff_iff, isAddressed_iff, isAddressed_iff]
  simp only [settledRow, settledCell_weight hkeeps htarget hrow]

theorem find?_settled (hkeeps : KeepsIds server targets contents processed)
    (htarget : targets.get? item.table = some (idColumn, names)) :
    (settled server targets contents items processed item.table).find?
        (isAddressed server idColumn item) =
      ((contents item.table).find? (isAddressed server idColumn item)).map
        (settledRow server targets items processed item.table) := by
  rw [settled, List.find?_map]
  congr 1
  apply List.find?_congr
  intro row hrow
  exact isAddressed_settledRow hkeeps htarget hrow

omit [DecidableEq ν] [DecidableEq ω] in
theorem idWeights_cons_some {rows : List (Row ν)} {w : ω}
    (h : (row.cell idColumn).map (server.weight table idColumn) = some w) :
    idWeights server table idColumn (row :: rows) = w :: idWeights server table idColumn rows :=
  List.filterMap_cons_some h

omit [DecidableEq ν] [DecidableEq ω] in
theorem idWeights_cons_none {rows : List (Row ν)}
    (h : (row.cell idColumn).map (server.weight table idColumn) = none) :
    idWeights server table idColumn (row :: rows) = idWeights server table idColumn rows :=
  List.filterMap_cons_none h

omit [DecidableEq ν] in
theorem length_filter_isAddressed (rows : List (Row ν)) :
    (rows.filter (isAddressed server idColumn item)).length =
      (idWeights server item.table idColumn rows).count
        (server.weight item.table idColumn item.rowId) := by
  induction rows with
  | nil => rfl
  | cons row rows ih =>
      by_cases h : isAddressed server idColumn item row = true
      · rw [List.filter_cons_of_pos h, List.length_cons, ih,
          idWeights_cons_some (isAddressed_iff.mp h), List.count_cons_self]
      · rw [List.filter_cons_of_neg h, ih]
        cases hcell : (row.cell idColumn).map (server.weight item.table idColumn) with
        | none => rw [idWeights_cons_none hcell]
        | some w =>
            have hne : w ≠ server.weight item.table idColumn item.rowId := by
              rintro rfl
              exact h (isAddressed_iff.mpr hcell)
            rw [idWeights_cons_some hcell, List.count_cons_of_ne hne]

omit [DecidableEq ν] in
theorem filter_isAddressed (hunique : UniqueIds server targets contents)
    (htarget : targets.get? item.table = some (idColumn, names))
    (hfind : (contents item.table).find? (isAddressed server idColumn item) = some row) :
    (contents item.table).filter (isAddressed server idColumn item) = [row] := by
  have hone : ((contents item.table).filter (isAddressed server idColumn item)).length ≤ 1 := by
    rw [length_filter_isAddressed]
    exact List.nodup_iff_count_le_one.mp (hunique item.table idColumn names htarget) _
  have hhead := List.head?_filter (p := isAddressed server idColumn item)
    (l := contents item.table)
  rw [hfind] at hhead
  cases hfilter : (contents item.table).filter (isAddressed server idColumn item) with
  | nil => simp [hfilter] at hhead
  | cons first rest =>
      rw [hfilter] at hhead hone
      obtain rfl := Option.some.inj hhead
      rw [List.length_cons] at hone
      rw [List.eq_nil_of_length_eq_zero (l := rest) (by omega)]

omit [DecidableEq ν] in
theorem eq_of_isAddressed (hunique : UniqueIds server targets contents)
    (htarget : targets.get? item.table = some (idColumn, names))
    (hfind : (contents item.table).find? (isAddressed server idColumn item) = some row)
    {row' : Row ν} (hrow' : row' ∈ contents item.table)
    (haddressed : isAddressed server idColumn item row' = true) : row' = row := by
  have hmem := List.mem_filter.mpr ⟨hrow', haddressed⟩
  rw [filter_isAddressed hunique htarget hfind] at hmem
  exact List.mem_singleton.mp hmem

omit [DecidableEq ν] in
theorem find?_of_isAddressed (hunique : UniqueIds server targets contents)
    (htarget : targets.get? item.table = some (idColumn, names))
    (hrow : row ∈ contents item.table)
    (haddressed : isAddressed server idColumn item row = true) :
    (contents item.table).find? (isAddressed server idColumn item) = some row := by
  cases hfind : (contents item.table).find? (isAddressed server idColumn item) with
  | none => exact absurd haddressed (List.find?_eq_none.mp hfind row hrow)
  | some row' => rw [eq_of_isAddressed hunique htarget hfind hrow haddressed]

end Kept

/-! ## One more item -/

section One

variable {server : Server ν ω} {targets : Targets} {contents : TableRows ν}
  {items processed : List (UpdateItem ν)} {idColumn : Str}
  {names : List Str} {row : Row ν} {item : UpdateItem ν}

/-- An item that was not processed yet, and whose row holds its source path. -/
structure IsPending (server : Server ν ω) (targets : Targets) (contents : TableRows ν)
    (items processed : List (UpdateItem ν)) (item : UpdateItem ν) (idColumn : Str)
    (names : List Str) (row : Row ν) : Prop where
  mem : item ∈ items
  new : item ∉ processed
  target : targets.get? item.table = some (idColumn, names)
  found : (contents item.table).find? (isAddressed server idColumn item) = some row
  judged : judge server item (row.cell item.column) = none
  apart : items.Pairwise (IsApart server targets)
  unique : UniqueIds server targets contents
  keeps : KeepsIds server targets contents processed

namespace IsPending

variable (h : IsPending server targets contents items processed item idColumn names row)

include h

theorem row_mem : row ∈ contents item.table := List.mem_of_find?_eq_some h.found

theorem addressed : isAddressed server idColumn item row = true := List.find?_some h.found

theorem due : isDue server targets item.table row item.column item = true :=
  (isDue_iff h.target).mpr ⟨rfl, rfl, h.addressed, h.judged⟩

theorem settledRow_cell :
    (settledRow server targets items processed item.table row).cell item.column =
      row.cell item.column := by
  apply settledCell_of_not_isDue
  intro other hother hprocessed
  by_contra hdue
  rw [Bool.not_eq_false] at hdue
  exact h.new (eq_of_isDue h.apart hother h.mem hdue h.due ▸ hprocessed)

theorem matched :
    isMatched server idColumn item (settledRow server targets items processed item.table row) =
      true := by
  rw [isMatched, isAddressed_settledRow h.keeps h.target h.row_mem,
    h.addressed, h.settledRow_cell, (judge_eq_none_iff.mp h.judged).1]
  simp [Server.same]

theorem unmatched {row' : Row ν} (hrow' : row' ∈ contents item.table) (hne : row' ≠ row) :
    isMatched server idColumn item
      (settledRow server targets items processed item.table row') = false := by
  by_contra hmatch
  rw [Bool.not_eq_false] at hmatch
  have haddressed := isAddressed_of_isMatched hmatch
  rw [isAddressed_settledRow h.keeps h.target hrow'] at haddressed
  exact hne (eq_of_isAddressed h.unique h.target h.found hrow' haddressed)

theorem updateRow_settledRow {row' : Row ν} (hrow' : row' ∈ contents item.table) :
    updateRow server idColumn item (settledRow server targets items processed item.table row') =
      settledRow server targets items (item :: processed) item.table row' := by
  by_cases hne : row' = row
  · subst hne
    rw [updateRow, if_pos h.matched]
    simp only [Row.setCell, settledRow, Row.mk.injEq, true_and]
    funext column
    by_cases hcolumn : column = item.column
    · subst hcolumn
      rw [Function.update_self, settledCell_of_isDue h.apart h.mem List.mem_cons_self h.due]
    · rw [Function.update_of_ne hcolumn]
      apply settledCell_congr
      intro other _ hdue
      have hother : other ≠ item := by
        rintro rfl
        exact hcolumn ((isDue_iff h.target).mp hdue).2.1.symm
      simp [hother]
  · rw [updateRow_of_not_isMatched (h.unmatched hrow' hne)]
    apply settledRow_congr
    intro column other _ hdue
    have hother : other ≠ item := by
      rintro rfl
      exact hne (eq_of_isAddressed h.unique h.target h.found hrow'
        ((isDue_iff h.target).mp hdue).2.2.1)
    simp [hother]

theorem updatedRows_settled :
    updatedRows server idColumn item (settled server targets contents items processed) =
      settled server targets contents items (item :: processed) item.table := by
  rw [updatedRows, settled, settled, List.map_map]
  apply List.map_congr_left
  intro row' hrow'
  exact h.updateRow_settledRow hrow'

theorem applyUpdate_settled :
    applyUpdate server idColumn item (settled server targets contents items processed) =
      settled server targets contents items (item :: processed) := by
  funext table
  by_cases htable : table = item.table
  · rw [htable, applyUpdate_self, h.updatedRows_settled]
  · rw [applyUpdate_of_ne htable]
    apply List.map_congr_left
    intro row' _
    apply settledRow_congr
    intro column other _ hdue
    obtain ⟨_, _, htarget⟩ := exists_target_of_isDue hdue
    have hother : other ≠ item := by
      rintro rfl
      exact htable ((isDue_iff htarget).mp hdue).1.symm
    simp [hother]

theorem length_changedRows :
    (changedRows server idColumn item
      (settled server targets contents items processed)).length = 1 := by
  rw [changedRows, settled, List.filter_map, List.length_map]
  have hfilter : (contents item.table).filter
      ((fun row ↦ isMatched server idColumn item row &&
        decide (row.cell item.column ≠ some (server.text item.destinationUrl))) ∘
          settledRow server targets items processed item.table) =
      (contents item.table).filter (isAddressed server idColumn item) := by
    apply List.filter_congr
    intro row' hrow'
    by_cases hne : row' = row
    · subst hne
      have hcell := (judge_eq_none_iff.mp h.judged).2
      simp [h.matched, h.addressed, h.settledRow_cell, hcell]
    · have haddressed : isAddressed server idColumn item row' = false := by
        by_contra haddressed
        rw [Bool.not_eq_false] at haddressed
        exact hne (eq_of_isAddressed h.unique h.target h.found hrow' haddressed)
      simp [h.unmatched hrow' hne, haddressed]
  rw [hfilter, filter_isAddressed h.unique h.target h.found, List.length_singleton]

theorem updateOne_eq {contents' : TableRows ν} {outcome : UpdateOutcome}
    (hone : updateOne server targets item (settled server targets contents items processed) =
      .ok (contents', outcome)) :
    server.admits item.table
        (settled server targets contents items (item :: processed) item.table) = .ok () ∧
      contents' = applyUpdate server idColumn item
        (settled server targets contents items processed) ∧ outcome = .updated := by
  simp only [updateOne, h.target, find?_settled h.keeps h.target, h.found, Option.map_some,
    h.settledRow_cell, h.judged, bind_eq_ok_iff, h.updatedRows_settled] at hone
  obtain ⟨_, hadmits, hwritten⟩ := hone
  obtain ⟨hcontents, houtcome⟩ := Prod.mk.inj (Except.ok.inj hwritten)
  rw [h.length_changedRows] at houtcome
  exact ⟨hadmits, hcontents.symm, houtcome.symm⟩

end IsPending

theorem settledRow_cell_of_judge (hapart : items.Pairwise (IsApart server targets))
    (hitem : item ∈ items) (htarget : targets.get? item.table = some (idColumn, names))
    (haddressed : isAddressed server idColumn item row = true)
    (hjudge : judge server item (row.cell item.column) ≠ none) :
    (settledRow server targets items processed item.table row).cell item.column =
      row.cell item.column := by
  apply settledCell_of_not_isDue
  intro other hother _
  by_contra hdue
  rw [Bool.not_eq_false] at hdue
  obtain ⟨htable, hcolumn, haddressed', hjudge'⟩ := (isDue_iff htarget).mp hdue
  obtain rfl := eq_of_same_cell hapart hitem hother htarget htable.symm hcolumn.symm haddressed
    haddressed'
  exact hjudge hjudge'

theorem isDue_eq_false_of_judge (hunique : UniqueIds server targets contents)
    (htarget : targets.get? item.table = some (idColumn, names))
    (hfind : (contents item.table).find? (isAddressed server idColumn item) = some row)
    (hjudge : judge server item (row.cell item.column) ≠ none) :
    ∀ row' ∈ contents item.table,
      isDue server targets item.table row' item.column item = false := by
  intro row' hrow'
  by_contra hdue
  rw [Bool.not_eq_false] at hdue
  obtain ⟨_, _, haddressed, hjudge'⟩ := (isDue_iff htarget).mp hdue
  obtain rfl := eq_of_isAddressed hunique htarget hfind hrow' haddressed
  exact hjudge hjudge'

theorem isDue_eq_false_of_find? (htarget : targets.get? item.table = some (idColumn, names))
    (hfind : (contents item.table).find? (isAddressed server idColumn item) = none) :
    ∀ row ∈ contents item.table,
      isDue server targets item.table row item.column item = false := by
  intro row hrow
  by_contra hdue
  rw [Bool.not_eq_false] at hdue
  exact List.find?_eq_none.mp hfind row hrow ((isDue_iff htarget).mp hdue).2.2.1

/-- One item more, after any that have kept the ids. -/
theorem updateOne_settled (hitem : item ∈ items)
    (htarget : targets.get? item.table = some (idColumn, names))
    (hapart : items.Pairwise (IsApart server targets))
    (hunique : UniqueIds server targets contents)
    (hkeeps : KeepsIds server targets contents processed)
    (hadmits : ∀ row, IsPending server targets contents items processed item idColumn names row →
      server.admits item.table
        (settled server targets contents items (item :: processed) item.table) = .ok ()) :
    updateOne server targets item (settled server targets contents items processed) =
      .ok (settled server targets contents items (item :: processed),
        settledOutcome server targets contents processed item) := by
  simp only [updateOne, settledOutcome, htarget, find?_settled hkeeps htarget]
  cases hfind : (contents item.table).find? (isAddressed server idColumn item) with
  | none =>
      rw [settled_cons fun _ ↦ isDue_eq_false_of_find? htarget hfind]
      rfl
  | some row =>
      simp only [Option.map_some]
      cases hjudge : judge server item (row.cell item.column) with
      | some outcome =>
          have hnone : judge server item (row.cell item.column) ≠ none := by simp [hjudge]
          rw [settledRow_cell_of_judge hapart hitem htarget (List.find?_some hfind) hnone, hjudge,
            settled_cons fun _ ↦ isDue_eq_false_of_judge hunique htarget hfind hnone]
      | none =>
          by_cases hprocessed : item ∈ processed
          · -- its row holds the destination by now
            have hdue : isDue server targets item.table row item.column item = true :=
              (isDue_iff htarget).mpr ⟨rfl, rfl, List.find?_some hfind, hjudge⟩
            have hcell : (settledRow server targets items processed item.table row).cell
                item.column = some (server.text item.destinationUrl) :=
              settledCell_of_isDue hapart hitem hprocessed hdue
            rw [hcell, settled_cons fun hnew ↦ absurd hprocessed hnew, judge, if_pos rfl,
              if_pos hprocessed]
          · have hpending : IsPending server targets contents items processed item idColumn names
                row := ⟨hitem, hprocessed, htarget, hfind, hjudge, hapart, hunique, hkeeps⟩
            rw [hpending.settledRow_cell, hjudge, hpending.updatedRows_settled,
              hadmits row hpending, hpending.applyUpdate_settled, hpending.length_changedRows,
              if_neg hprocessed]
            rfl

end One

/-! ## Whole runs -/

section Runs

variable {server : Server ν ω} {targets : Targets} {contents : TableRows ν}
  {items processed part : List (UpdateItem ν)} {item : UpdateItem ν}

theorem KeepsIds.mono (h : KeepsIds server targets contents items)
    (hpart : ∀ item ∈ part, item ∈ items) : KeepsIds server targets contents part :=
  fun item hitem ↦ h item (hpart item hitem)

def settledOutcomes (server : Server ν ω) (targets : Targets) (contents : TableRows ν) :
    List (UpdateItem ν) → List (UpdateItem ν) → List UpdateOutcome
  | _, [] => []
  | processed, item :: rest =>
      settledOutcome server targets contents processed item ::
        settledOutcomes server targets contents (item :: processed) rest

theorem settledOutcomes_getElem? {j : ℕ} {outcome : UpdateOutcome}
    (hitem : part[j]? = some item)
    (houtcome : (settledOutcomes server targets contents processed part)[j]? = some outcome) :
    ∃ earlier, (∀ other ∈ processed, other ∈ earlier) ∧
      outcome = settledOutcome server targets contents earlier item := by
  induction part generalizing processed j with
  | nil => simp at hitem
  | cons first rest ih =>
      cases j with
      | zero =>
          obtain rfl := Option.some.inj hitem
          exact ⟨processed, fun _ h ↦ h, (Option.some.inj houtcome).symm⟩
      | succ j =>
          obtain ⟨earlier, hearlier, houtcome⟩ := ih hitem houtcome
          exact ⟨earlier, fun other hother ↦ hearlier other (List.mem_cons_of_mem first hother),
            houtcome⟩

theorem length_settledOutcomes :
    (settledOutcomes server targets contents processed part).length = part.length := by
  induction part generalizing processed with
  | nil => rfl
  | cons first rest ih => rw [settledOutcomes, List.length_cons, ih, List.length_cons]

theorem settledOutcome_again {earlier : List (UpdateItem ν)}
    (h : settledOutcome server targets contents earlier item = .updated)
    (hitem : item ∈ processed) :
    settledOutcome server targets contents processed item = .alreadyUpdated := by
  unfold settledOutcome at h ⊢
  cases htarget : targets.get? item.table with
  | none => simp [htarget] at h
  | some target =>
      simp only [htarget] at h ⊢
      cases hfind : (contents item.table).find? (isAddressed server target.1 item) with
      | none => simp [hfind] at h
      | some row =>
          simp only [hfind] at h ⊢
          cases hjudge : judge server item (row.cell item.column) with
          | some outcome =>
              simp only [hjudge] at h
              exact absurd h (ne_updated_of_judge hjudge)
          | none => simp [hitem]

theorem exists_target_of_updateItems {contents' : TableRows ν} {outcomes : List UpdateOutcome}
    {contents : TableRows ν}
    (h : updateItems server targets items contents = .ok (contents', outcomes))
    (hitem : item ∈ items) :
    ∃ idColumn names, targets.get? item.table = some (idColumn, names) := by
  induction items generalizing contents outcomes with
  | nil => exact absurd hitem List.not_mem_nil
  | cons first rest ih =>
      obtain ⟨_, _, _, hone, hrest, _⟩ := updateItems_cons_eq_ok h
      obtain ⟨idColumn, names, htarget, _⟩ := updateOne_cases hone
      rcases List.mem_cons.mp hitem with rfl | hitem
      · exact ⟨idColumn, names, htarget⟩
      · exact ih hrest hitem

/-- Any items, after any others, where none of them changes an id and none is refused. -/
theorem updateItems_settled (hadmits : AdmitsEachPart server targets contents items)
    (hunique : UniqueIds server targets contents)
    (hapart : items.Pairwise (IsApart server targets))
    (htargets : ∀ item ∈ items, ∃ idColumn names,
      targets.get? item.table = some (idColumn, names))
    (hpart : ∀ item ∈ part ++ processed, item ∈ items)
    (hkeeps : KeepsIds server targets contents (part ++ processed)) :
    updateItems server targets part (settled server targets contents items processed) =
      .ok (settled server targets contents items (part.reverse ++ processed),
        settledOutcomes server targets contents processed part) := by
  induction part generalizing processed with
  | nil => rfl
  | cons item rest ih =>
      have hitem := hpart item List.mem_cons_self
      obtain ⟨idColumn, names, htarget⟩ := htargets item hitem
      have hmoved : ∀ other, other ∈ rest ++ item :: processed →
          other ∈ item :: rest ++ processed := by simp +contextual [or_imp]
      have hone : updateOne server targets item (settled server targets contents items processed) =
          .ok (settled server targets contents items (item :: processed),
            settledOutcome server targets contents processed item) := by
        apply updateOne_settled hitem htarget hapart hunique
        · exact hkeeps.mono fun other hother ↦ List.mem_append_right _ hother
        · intro row hpending
          apply hadmits (item :: processed) _ item List.mem_cons_self row hpending.row_mem
            hpending.due
          exact fun other hother ↦ hpart other (hmoved other (List.mem_append_right _ hother))
      have hrest := ih (fun other hother ↦ hpart other (hmoved other hother)) (hkeeps.mono hmoved)
      rw [updateItems_cons_of_eq_ok hone hrest, settledOutcomes]
      simp

/-- What a run after other items comes to, if none of them changes an id. -/
theorem settled_of_updateItems {contents' : TableRows ν} {outcomes : List UpdateOutcome}
    (hunique : UniqueIds server targets contents)
    (hapart : items.Pairwise (IsApart server targets)) (hpart : ∀ item ∈ part, item ∈ items)
    (hkeeps : KeepsIds server targets contents (part ++ processed))
    (hrun : updateItems server targets part (settled server targets contents items processed) =
      .ok (contents', outcomes)) :
    contents' = settled server targets contents items (part.reverse ++ processed) ∧
      outcomes = settledOutcomes server targets contents processed part := by
  induction part generalizing processed outcomes with
  | nil =>
      obtain ⟨rfl, rfl⟩ := Prod.mk.inj (Except.ok.inj hrun)
      exact ⟨rfl, rfl⟩
  | cons item rest ih =>
      obtain ⟨contents₁, outcome, outcomes', hone, hrest, rfl⟩ := updateItems_cons_eq_ok hrun
      obtain ⟨idColumn, names, htarget, _⟩ := updateOne_cases hone
      have hitem := hpart item List.mem_cons_self
      have hsettled : updateOne server targets item
          (settled server targets contents items processed) =
          .ok (settled server targets contents items (item :: processed),
            settledOutcome server targets contents processed item) := by
        apply updateOne_settled hitem htarget hapart hunique
        · exact hkeeps.mono fun other hother ↦ List.mem_append_right _ hother
        · exact fun row hpending ↦ (hpending.updateOne_eq hone).1
      obtain ⟨rfl, rfl⟩ := Prod.mk.inj (Except.ok.inj (hone.symm.trans hsettled))
      have hkeeps' : KeepsIds server targets contents (rest ++ item :: processed) :=
        hkeeps.mono (by simp +contextual [or_imp])
      obtain ⟨rfl, rfl⟩ := ih (fun other hother ↦ hpart other (List.mem_cons_of_mem item hother))
        hkeeps' hrest
      exact ⟨by simp, rfl⟩

/-- The items of a run that changes no id leave the rows settled. -/
theorem updateItems_eq_settled {contents' : TableRows ν} {outcomes : List UpdateOutcome}
    (hunique : UniqueIds server targets contents)
    (hapart : items.Pairwise (IsApart server targets)) (hpart : ∀ item ∈ part, item ∈ items)
    (hkeeps : KeepsIds server targets contents part)
    (hrun : updateItems server targets part contents = .ok (contents', outcomes)) :
    contents' = settled server targets contents items part.reverse ∧
      outcomes = settledOutcomes server targets contents [] part := by
  have hstart : updateItems server targets part (settled server targets contents items []) =
      .ok (contents', outcomes) := by
    rw [settled_nil]
    exact hrun
  simpa using settled_of_updateItems hunique hapart hpart (by simpa using hkeeps) hstart

end Runs

/-! ## Resumption -/

section Resumption

variable {server : Server ν ω} {targets : Targets} {db : Database ν}
  {items : List (UpdateItem ν)} {final : TableRows ν} {outcomes : List UpdateOutcome}

theorem isResumable_of_keepsIds (hvalid : validateItems db items = .ok targets)
    (hunique : UniqueIds server targets db.contents)
    (hapart : items.Pairwise (IsApart server targets))
    (hrun : updateItems server targets items db.contents = .ok (final, outcomes))
    (hkeeps : KeepsIds server targets db.contents items)
    (hadmits : AdmitsEachPart server targets db.contents items) :
    IsResumable server targets db items final := by
  have htargets : ∀ item ∈ items, ∃ idColumn names,
      targets.get? item.table = some (idColumn, names) :=
    fun item hitem ↦ exists_target_of_updateItems hrun hitem
  have hfinal := (updateItems_eq_settled hunique hapart (fun _ h ↦ h) hkeeps hrun).1
  intro n contents outcomes₁ resent hcut hrest hresent
  have htake : ∀ item ∈ items.take n, item ∈ items := fun item hitem ↦ List.mem_of_mem_take hitem
  obtain ⟨rfl, rfl⟩ := updateItems_eq_settled hunique hapart htake (hkeeps.mono htake) hcut
  obtain ⟨targets', hvalid', hsame⟩ := validateItems_of_subset hvalid hresent
  have hpart : ∀ item ∈ resent ++ (items.take n).reverse, item ∈ items := by
    intro item hitem
    rw [List.mem_append, List.mem_reverse] at hitem
    exact hitem.elim (hresent item) (htake item)
  have hagain := updateItems_settled hadmits hunique hapart htargets hpart (hkeeps.mono hpart)
  refine ⟨targets', settledOutcomes server targets db.contents (items.take n).reverse resent,
    hvalid', ?_, ?_⟩
  · rw [updateItems_congr hsame, hagain, hfinal]
    congr 2
    apply settled_congr
    intro _ _ _ _ item hitem _
    have hsplit : item ∈ items.take n ∨ item ∈ items.drop n := by
      rw [← List.mem_append, List.take_append_drop]
      exact hitem
    have hprocessed : item ∈ resent ∨ item ∈ items.take n :=
      hsplit.elim .inr fun hdrop ↦ .inl (hrest item hdrop)
    simp [hitem, hprocessed]
  · intro i j item hi houtcome hj
    have hmem : item ∈ (items.take n).reverse := by
      simpa using List.mem_of_getElem? hi
    obtain ⟨earlier, _, hearlier⟩ := settledOutcomes_getElem? hi houtcome
    have hj' : j < (settledOutcomes server targets db.contents
        (items.take n).reverse resent).length := by
      rw [length_settledOutcomes]
      exact (List.getElem?_eq_some_iff.mp hj).1
    obtain ⟨later, hlater, hfound⟩ :=
      settledOutcomes_getElem? hj (List.getElem?_eq_getElem hj')
    rw [List.getElem?_eq_getElem hj', hfound,
      settledOutcome_again hearlier.symm (hlater item hmem)]

/-- An item that gives its row another id is not found when it is sent again. -/
theorem find?_eq_none_of_changed_id {contents : TableRows ν} {processed : List (UpdateItem ν)}
    {item : UpdateItem ν} {names : List Str} {row : Row ν}
    (h : IsPending server targets contents items processed item item.column names row)
    (hchanges : server.weight item.table item.column (server.text item.destinationUrl) ≠
      server.weight item.table item.column item.rowId) :
    (applyUpdate server item.column item
      (settled server targets contents items processed) item.table).find?
        (isAddressed server item.column item) = none := by
  rw [applyUpdate_self, updatedRows, settled, List.map_map, List.find?_map,
    Option.map_eq_none_iff, List.find?_eq_none]
  intro row' hrow'
  rw [Function.comp_apply, Function.comp_apply]
  by_cases hne : row' = row
  · subst hne
    rw [isAddressed_iff, updateRow_cell h.matched, Option.map_some, Option.some_inj]
    exact hchanges
  · rw [updateRow_of_not_isMatched (h.unmatched hrow' hne),
      isAddressed_settledRow h.keeps h.target hrow']
    exact fun haddressed ↦
      hne (eq_of_isAddressed h.unique h.target h.found hrow' haddressed)

theorem isPending_of_isDue {before after : List (UpdateItem ν)} {item : UpdateItem ν}
    {idColumn : Str} {names : List Str} {row : Row ν}
    (hunique : UniqueIds server targets db.contents)
    (hapart : (before ++ item :: after).Pairwise (IsApart server targets))
    (hbefore : KeepsIds server targets db.contents before)
    (htarget : targets.get? item.table = some (idColumn, names))
    (hrow : row ∈ db.contents item.table)
    (hdue : isDue server targets item.table row item.column item = true) :
    IsPending server targets db.contents (before ++ item :: after) before.reverse item idColumn
      names row := by
  obtain ⟨_, _, haddressed, hjudge⟩ := (isDue_iff htarget).mp hdue
  have hnew : item ∉ before.reverse := by
    intro hold
    have hself := (List.pairwise_append.mp hapart).2.2 item (List.mem_reverse.mp hold) item
      List.mem_cons_self
    exact hself _ _ htarget rfl rfl rfl
  have hmem : item ∈ before ++ item :: after := List.mem_append_right _ List.mem_cons_self
  have hfind := find?_of_isAddressed hunique htarget hrow haddressed
  have hkeeps : KeepsIds server targets db.contents before.reverse :=
    hbefore.mono fun _ h ↦ List.mem_reverse.mp h
  exact ⟨hmem, hnew, htarget, hfind, hjudge, hapart, hunique, hkeeps⟩

theorem keepsIds_concat {before after : List (UpdateItem ν)} {item : UpdateItem ν}
    (hvalid : validateItems db items = .ok targets)
    (hunique : UniqueIds server targets db.contents)
    (hapart : items.Pairwise (IsApart server targets))
    (hrun : updateItems server targets items db.contents = .ok (final, outcomes))
    (hresumable : IsResumable server targets db items final)
    (hitems : items = before ++ item :: after)
    (hbefore : KeepsIds server targets db.contents before) :
    KeepsIds server targets db.contents (before ++ [item]) := by
  intro item' hitem' names htarget row hrow hdue
  rcases List.mem_append.mp hitem' with hearlier | hlast
  · exact hbefore item' hearlier names htarget row hrow hdue
  obtain rfl := List.mem_singleton.mp hlast
  by_contra hchanges
  subst hitems
  -- the run up to the item, and the item itself, which updates its row
  obtain ⟨contents₁, outcomes₁, _, hearlier, hrest, _⟩ := updateItems_append_eq_ok hrun
  obtain ⟨contents₂, outcome, _, hone, _, _⟩ := updateItems_cons_eq_ok hrest
  have hcut := updateItems_concat_of_eq_ok hearlier hone
  obtain ⟨rfl, rfl⟩ := updateItems_eq_settled hunique hapart
    (fun other hother ↦ List.mem_append_left _ hother) hbefore hearlier
  have hpending := isPending_of_isDue hunique hapart hbefore htarget hrow hdue
  obtain ⟨_, rfl, rfl⟩ := hpending.updateOne_eq hone
  -- sent again, it finds no row
  have hagain : ∀ other ∈ item' :: after, other ∈ before ++ item' :: after :=
    fun other hother ↦ List.mem_append_right _ hother
  have htake : (before ++ item' :: after).take (before.length + 1) = before ++ [item'] :=
    List.take_length_add_append 1
  have hdrop : (before ++ item' :: after).drop (before.length + 1) = after :=
    List.drop_length_add_append 1
  obtain ⟨targets', outcomes', hvalid', hresumed, hcounted⟩ := hresumable (before.length + 1) _ _
    (item' :: after) (by rw [htake]; exact hcut)
    (by rw [hdrop]; exact fun _ h ↦ List.mem_cons_of_mem _ h) hagain
  obtain ⟨targets₁, hvalid₁, hsame⟩ := validateItems_of_subset hvalid hagain
  obtain rfl := Except.ok.inj (hvalid₁.symm.trans hvalid')
  rw [updateItems_congr hsame] at hresumed
  obtain ⟨_, outcome', _, hone', _, rfl⟩ := updateItems_cons_eq_ok hresumed
  have hupdated := hcounted before.length 0 item' (by simp [htake])
    (by simp [length_settledOutcomes]) rfl
  have hmissing := missing_of_find?_eq_none htarget
    (find?_eq_none_of_changed_id hpending hchanges) hone'
  rw [hmissing] at hupdated
  cases hupdated

theorem keepsIds_of_isResumable (hvalid : validateItems db items = .ok targets)
    (hunique : UniqueIds server targets db.contents)
    (hapart : items.Pairwise (IsApart server targets))
    (hrun : updateItems server targets items db.contents = .ok (final, outcomes))
    (hresumable : IsResumable server targets db items final) :
    KeepsIds server targets db.contents items := by
  have hprefix : ∀ before after, items = before ++ after →
      KeepsIds server targets db.contents before := by
    intro before
    induction before using List.reverseRecOn with
    | nil => exact fun _ _ item hitem ↦ absurd hitem List.not_mem_nil
    | append_singleton before item ih =>
        intro after hitems
        have hsplit : items = before ++ item :: after := by simp [hitems]
        exact keepsIds_concat hvalid hunique hapart hrun hresumable hsplit
          (ih (item :: after) (by simp [hitems]))
  exact hprefix items [] (by simp)

/-- Every part of the items is reached by sending it first, with one of them at its end. -/
theorem admitsEachPart_of_isResumable (hvalid : validateItems db items = .ok targets)
    (hunique : UniqueIds server targets db.contents)
    (hapart : items.Pairwise (IsApart server targets))
    (hkeeps : KeepsIds server targets db.contents items)
    (hresumable : IsResumable server targets db items final) :
    AdmitsEachPart server targets db.contents items := by
  intro part hpart item hitem row hrow hdue
  let others := part.filter (· ≠ item)
  have hothers : ∀ other ∈ others, other ∈ items :=
    fun other hother ↦ hpart other (List.mem_of_mem_filter hother)
  have hresent : ∀ other ∈ others ++ item :: items, other ∈ items := by
    intro other hother
    rcases List.mem_append.mp hother with hother | hother
    · exact hothers other hother
    · rcases List.mem_cons.mp hother with rfl | hother
      · exact hpart other hitem
      · exact hother
  have hall : ∀ other ∈ items.drop 0, other ∈ others ++ item :: items :=
    fun other hother ↦ List.mem_append_right _ (List.mem_cons_of_mem _ hother)
  obtain ⟨targets', outcomes', hvalid', hresumed, _⟩ :=
    hresumable 0 db.contents [] (others ++ item :: items) rfl hall hresent
  obtain ⟨targets₁, hvalid₁, hsame⟩ := validateItems_of_subset hvalid hresent
  obtain rfl := Except.ok.inj (hvalid₁.symm.trans hvalid')
  rw [updateItems_congr hsame] at hresumed
  obtain ⟨contents₁, outcomes₁, _, hearlier, hrest, _⟩ := updateItems_append_eq_ok hresumed
  obtain ⟨contents₂, outcome, _, hone, _, _⟩ := updateItems_cons_eq_ok hrest
  obtain ⟨rfl, _⟩ :=
    updateItems_eq_settled hunique hapart hothers (hkeeps.mono hothers) hearlier
  obtain ⟨idColumn, names, htarget⟩ := exists_target_of_isDue hdue
  obtain ⟨_, _, haddressed, hjudge⟩ := (isDue_iff htarget).mp hdue
  have hnew : item ∉ others.reverse := by simp [others]
  have hfind := find?_of_isAddressed hunique htarget hrow haddressed
  have hkeeps' : KeepsIds server targets db.contents others.reverse :=
    hkeeps.mono fun other hother ↦ hothers other (List.mem_reverse.mp hother)
  have hpending : IsPending server targets db.contents items others.reverse item idColumn names
      row := ⟨hpart item hitem, hnew, htarget, hfind, hjudge, hapart, hunique, hkeeps'⟩
  have hadmits := (hpending.updateOne_eq hone).1
  have hsame' : settled server targets db.contents items (item :: others.reverse) =
      settled server targets db.contents items part := by
    apply settled_congr
    intro _ _ _ _ other _ _
    by_cases hother : other = item
    · simp [hother, hitem]
    · simp [others, hother]
  rw [← hsame']
  exact hadmits

/-- An update can be resumed at any point if and only if no item changes the id of its row
and no part of the items is refused. -/
theorem isResumable_iff_keepsIds (hvalid : validateItems db items = .ok targets)
    (hunique : UniqueIds server targets db.contents)
    (hapart : items.Pairwise (IsApart server targets))
    (hrun : updateItems server targets items db.contents = .ok (final, outcomes)) :
    IsResumable server targets db items final ↔
      KeepsIds server targets db.contents items ∧
        AdmitsEachPart server targets db.contents items := by
  constructor
  · intro hresumable
    have hkeeps := keepsIds_of_isResumable hvalid hunique hapart hrun hresumable
    exact ⟨hkeeps, admitsEachPart_of_isResumable hvalid hunique hapart hkeeps hresumable⟩
  · rintro ⟨hkeeps, hadmits⟩
    exact isResumable_of_keepsIds hvalid hunique hapart hrun hkeeps hadmits

end Resumption

theorem uniqueIds_files {server : Server Str Str} {idColumn : Str} {names : List Str}
    {contents : TableRows Str}
    (h : (idWeights server "files".toList idColumn (contents "files".toList)).Nodup) :
    UniqueIds server (OrderedDict.empty.insert "files".toList (idColumn, names)) contents := by
  intro table idColumn' names' htarget
  rw [OrderedDict.get?_insert] at htarget
  split_ifs at htarget with htable
  · obtain ⟨rfl, rfl⟩ := Prod.mk.inj (Option.some.inj htarget)
    exact htable ▸ h
  · cases htarget

theorem single_id_isResumable :
    ∃ final, IsResumable plainServer fileTargets singleDatabase pathItems final := by
  have hvalid : validateItems singleDatabase pathItems = .ok fileTargets := rfl
  refine ⟨_, (isResumable_iff_keepsIds hvalid (uniqueIds_files (List.nodup_singleton _))
    (List.pairwise_singleton _ _) rfl).mpr ⟨?_, fun _ _ _ _ _ _ _ ↦ rfl⟩⟩
  rintro item hitem names htarget
  obtain rfl := List.mem_singleton.mp hitem
  obtain ⟨hid, _⟩ := Prod.mk.inj (Option.some.inj htarget)
  exact absurd hid (by decide)

/-- The table `files` with its paths for a primary key. -/
def keyedDatabase : Database Str where
  name := "app".toList
  tables :=
    [{ name := "files".toList
       columns := [⟨"file".toList, "varchar".toList⟩]
       primaryKey := ["file".toList]
       tableRows := none
       rows := [pathRow 0 ['7'] ['a']]
       columns_nodup := List.nodup_singleton _
       primaryKey_mem := fun _ h ↦ h
       rows_nodup := List.nodup_singleton _
       primaryKey_notNull := by
         intro row hrow c hc
         obtain rfl := List.mem_singleton.mp hrow
         obtain rfl := List.mem_singleton.mp hc
         decide
       primaryKey_unique := fun _ ↦ List.nodup_singleton _ }]
  nodup := List.nodup_singleton _

def keyTargets : Targets :=
  OrderedDict.empty.insert "files".toList ("file".toList, ["file".toList])

/-- No two rows of a table may have the same path. -/
def uniquePathServer : Server Str Str :=
  { plainServer with
    admits := fun _ rows ↦
      if (rows.map fun row ↦ row.cell "file".toList).Nodup then .ok ()
      else .error "Duplicate entry".toList }

def movedDatabase : Database Str :=
  legacyDatabase [pathRow 0 ['7'] ['b'], pathRow 1 ['8'] ['a']] (by decide)

/-- The path of the second row becomes the one that the first row gives up. -/
def movedItems : List (UpdateItem Str) := [pathItem ['7'] ['b'] ['c'], pathItem ['8'] ['a'] ['b']]

/-- An item gives its row another key, so that the same item finds no row again; and items
that are sent in another order are refused. -/
theorem update_not_resumed :
    (validateItems keyedDatabase [pathItem ['a'] ['a'] ['b']] = .ok keyTargets ∧
      UniqueIds plainServer keyTargets keyedDatabase.contents ∧
      [pathItem ['a'] ['a'] ['b']].Pairwise (IsApart plainServer keyTargets) ∧
      ∃ final, updateItems plainServer keyTargets [pathItem ['a'] ['a'] ['b']]
          keyedDatabase.contents = .ok (final, [.updated]) ∧
        ¬ IsResumable plainServer keyTargets keyedDatabase [pathItem ['a'] ['a'] ['b']] final) ∧
    validateItems movedDatabase movedItems = .ok fileTargets ∧
      UniqueIds uniquePathServer fileTargets movedDatabase.contents ∧
      movedItems.Pairwise (IsApart uniquePathServer fileTargets) ∧
      ∃ final, updateItems uniquePathServer fileTargets movedItems movedDatabase.contents =
          .ok (final, [.updated, .updated]) ∧
        ¬ IsResumable uniquePathServer fileTargets movedDatabase movedItems final := by
  refine ⟨⟨rfl, uniqueIds_files (List.nodup_singleton _), List.pairwise_singleton _ _, _, rfl,
    fun h ↦ ?_⟩, rfl, uniqueIds_files (by decide), ?_, _, rfl, fun h ↦ ?_⟩
  · obtain ⟨targets', outcomes', hvalid, hrun, hcounted⟩ :=
      h 1 _ [.updated] [pathItem ['a'] ['a'] ['b']] rfl
        (fun _ hitem ↦ absurd hitem List.not_mem_nil) (fun _ hitem ↦ hitem)
    have hvalid' : validateItems keyedDatabase [pathItem ['a'] ['a'] ['b']] = .ok keyTargets := rfl
    obtain rfl := Except.ok.inj (hvalid'.symm.trans hvalid)
    obtain ⟨_, rfl⟩ := Prod.mk.inj (Except.ok.inj hrun)
    have hmissing := hcounted 0 0 _ rfl rfl rfl
    cases hmissing
  · apply List.pairwise_pair.mpr
    intro idColumn names htarget _ _ hsame
    cases hsame
  · obtain ⟨targets', outcomes', hvalid, hrun, _⟩ :=
      h 0 _ [] movedItems.reverse rfl (by simp) (by simp)
    have hvalid' : validateItems movedDatabase movedItems.reverse = .ok fileTargets := rfl
    obtain rfl := Except.ok.inj (hvalid'.symm.trans hvalid)
    have hrefused : updateItems uniquePathServer fileTargets movedItems.reverse
        movedDatabase.contents = .error "Duplicate entry".toList := rfl
    rw [hrefused] at hrun
    cases hrun

end StorageReconciler
