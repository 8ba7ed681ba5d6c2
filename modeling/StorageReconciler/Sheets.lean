import Mathlib.Data.List.Find
import StorageReconciler.Foundations.Strings

/-!
# Sheets of a workbook

A sheet as the rows of cells that reading it back yields, and how a row is
addressed by the names in the header.  The library between writing a cell and
reading it back is a parameter of what is stated about reports.
-/

namespace StorageReconciler

open Strings

/-- A number is only ever printed or compared with zero. -/
inductive Cell where
  | blank
  | text (s : Str)
  | number (printed : Str) (isZero : Bool)
  deriving DecidableEq

namespace Cell

/-- Whether the value counts as true. -/
def truthy : Cell → Bool
  | blank => false
  | text s => s != []
  | number _ isZero => !isZero

/-- `str(value or "")` -/
def strOrEmpty : Cell → Str
  | blank => []
  | text s => s
  | number printed isZero => if isZero then [] else printed

/-- `value or ""`, as it is written to a sheet. -/
def ofOption : Option Str → Cell
  | some s => text s
  | none => text []

end Cell

def countCell (n : ℕ) : Cell := .number (Nat.repr n).toList (n == 0)

/-- The sheets by name, each with its rows. -/
abbrev Workbook := List (Str × List (List Cell))

/-- `str(name)` of a header cell. -/
def headerName : Cell → Option Str
  | .blank => none
  | .text s => some s
  | .number printed _ => some printed

/-- Where the column with the name is; the last one of several. -/
def colIndex (T : Tables) (header : List Cell) (name : Str) : Option ℕ :=
  (header.zipIdx.reverse.find? fun c ↦
    (headerName c.1).any fun s ↦ decide (lower T (strip s) = name)).map Prod.snd

def cellValue (T : Tables) (header row : List Cell) (name : Str) : Cell :=
  match colIndex T header name with
  | some i => row[i]?.getD .blank
  | none => .blank

/-- `s.capitalize()` of a text in ASCII. -/
def capitalize : Str → Str
  | [] => []
  | c :: s => c.toUpper :: s.map Char.toLower

/-- The workbook as it is read back, cell by cell. -/
def Workbook.reread (readBack : Cell → Cell) (workbook : Workbook) : Workbook :=
  workbook.map fun s ↦ (s.1, s.2.map fun row ↦ row.map readBack)

/-! ## Columns of a plain header -/

/-- Where the column with the lowered name is, by the names alone. -/
def columnOf (names : List Str) (name : Str) : Option ℕ :=
  ((names.map fun s ↦ s.map Char.toLower).zipIdx.reverse.find? fun c ↦
    decide (c.1 = name)).map Prod.snd

theorem colIndex_text {T : Tables} {names : List Str} (name : Str)
    (hplain : ∀ s ∈ names, strip s = s ∧ ∀ c ∈ s, isAscii c = true) :
    colIndex T (names.map .text) name = columnOf names name := by
  rw [colIndex, columnOf, List.zipIdx_map, List.zipIdx_map, ← List.map_reverse,
    ← List.map_reverse, List.find?_map, List.find?_map, Option.map_map, Option.map_map]
  congr 1
  apply List.find?_congr
  rintro ⟨s, i⟩ hmem
  obtain ⟨hstrip, hascii⟩ := hplain s (List.fst_mem_of_mem_zipIdx (List.mem_reverse.mp hmem))
  have hname : lower T (strip s) = s.map Char.toLower := by
    rw [hstrip, lower_of_ascii T hascii]
  simp [headerName, hname]

theorem cellValue_text {T : Tables} {names : List Str} {name : Str} {i : ℕ} (row : List Cell)
    (hplain : ∀ s ∈ names, strip s = s ∧ ∀ c ∈ s, isAscii c = true)
    (hcolumn : columnOf names name = some i) :
    cellValue T (names.map .text) row name = row[i]?.getD .blank := by
  rw [cellValue, colIndex_text name hplain, hcolumn]

/-! ## Reading back -/

/-- Texts are read back as they were written, an empty one possibly as an empty cell. -/
structure KeepsText (readBack : Cell → Cell) : Prop where
  text : ∀ s, s ≠ [] → readBack (.text s) = .text s
  empty : readBack (.text []) = .text [] ∨ readBack (.text []) = .blank

/-- Empty texts are read back as nothing. -/
def readBackCell (c : Cell) : Cell := if c = .text [] then .blank else c

theorem readBackCell_text {s : Str} (hs : s ≠ []) : readBackCell (.text s) = .text s :=
  if_neg fun h ↦ hs (Cell.text.inj h)

theorem KeepsText.map_text {readBack : Cell → Cell} (h : KeepsText readBack) {names : List Str}
    (hnames : ∀ s ∈ names, s ≠ []) :
    (names.map Cell.text).map readBack = names.map .text := by
  rw [List.map_map]
  exact List.map_congr_left fun s hs ↦ h.text s (hnames s hs)

theorem KeepsText.truthy {readBack : Cell → Cell} (h : KeepsText readBack) (s : Str) :
    (readBack (.text s)).truthy = decide (s ≠ []) := by
  by_cases hs : s = []
  · subst hs
    rcases h.empty with hempty | hempty
    · rw [hempty]
      rfl
    · rw [hempty]
      rfl
  · rw [h.text s hs]
    simp [Cell.truthy, hs]

theorem Cell.truthy_of_strOrEmpty {c : Cell} (h : c.strOrEmpty ≠ []) : c.truthy = true := by
  cases c with
  | blank => exact absurd rfl h
  | text s => simpa [Cell.truthy, Cell.strOrEmpty] using h
  | number printed isZero =>
      cases isZero with
      | true => exact absurd rfl h
      | false => rfl

theorem colIndex_eq_some {T : Tables} {header : List Cell} {name : Str} {i : ℕ}
    (h : colIndex T header name = some i) :
    ∃ c s, header[i]? = some c ∧ headerName c = some s ∧ lower T (strip s) = name := by
  obtain ⟨⟨c, j⟩, hfind, rfl⟩ := Option.map_eq_some_iff.mp h
  have hmem := List.mem_zipIdx_iff_getElem?.mp
    (List.mem_reverse.mp (List.mem_of_find?_eq_some hfind))
  have hany := List.find?_some hfind
  cases hs : headerName c with
  | none => simp [hs] at hany
  | some s => exact ⟨c, s, hmem, hs, by simpa [hs] using hany⟩

theorem cellValue_reread {T : Tables} {readBack : Cell → Cell} {names : List Str}
    {row : List Cell} {name : Str} (hread : ∀ c, readBack c = c ∨ readBack c = .blank)
    (h : (cellValue T ((names.map Cell.text).map readBack) (row.map readBack) name).truthy = true) :
    ∃ (i : ℕ) (s : Str), names[i]? = some s ∧ lower T (strip s) = name ∧
      row[i]? =
        some (cellValue T ((names.map Cell.text).map readBack) (row.map readBack) name) := by
  unfold cellValue at h ⊢
  cases hindex : colIndex T ((names.map Cell.text).map readBack) name with
  | none =>
      rw [hindex] at h
      exact absurd h Bool.false_ne_true
  | some i =>
      obtain ⟨c, s, hc, hs, hname⟩ := colIndex_eq_some hindex
      rw [hindex] at h
      simp only [List.getElem?_map, Option.map_eq_some_iff] at hc
      obtain ⟨_, ⟨s', hs', rfl⟩, rfl⟩ := hc
      have hsame : s' = s := by
        rcases hread (.text s') with htext | hblank
        · rw [htext] at hs
          exact Option.some.inj hs
        · rw [hblank] at hs
          exact nomatch hs
      subst hsame
      refine ⟨i, s', hs', hname, ?_⟩
      simp only [List.getElem?_map] at h ⊢
      cases hcell : row[i]? with
      | none =>
          rw [hcell] at h
          exact absurd h Bool.false_ne_true
      | some cell =>
          rw [hcell] at h
          rcases hread cell with hkept | hblank
          · simp [hkept]
          · simp [hblank, Cell.truthy] at h

end StorageReconciler
