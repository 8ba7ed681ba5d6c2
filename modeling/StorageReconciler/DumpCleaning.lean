import StorageReconciler.Foundations.Latches
import StorageReconciler.Foundations.Strings

/-!
# Cleaning a database dump

The dump is copied line by line, without the log tables.  A comment line names the table
whose statements follow, and so do the statements that drop, create or fill it.  What
follows a log table is left out until a comment line names another table.
-/

namespace StorageReconciler

open Strings Latches

/-! ## Lines that name a table -/

/-- The character around the names of tables. -/
def backtick : Char := '\x60'

/-- `^-- Table structure for (.+?)\s*$` -/
def tableMarker (line : Str) : Option Str :=
  let lead := "-- Table structure for ".toList
  if lead.isPrefixOf line then
    match line.drop lead.length with
    | [] => none
    | c :: s =>
        let table := c :: s.rdropWhile isSpace
        if table.contains '\n' then none else some table
  else none

/-- A statement that begins with the words before the name of a table, the name in
backticks, and the rest. -/
def matchTable (lead rest line : Str) : Option Str :=
  if lead.isPrefixOf line then
    let table := (line.drop lead.length).takeWhile (· != backtick)
    let after := (line.drop lead.length).dropWhile (· != backtick)
    if table ≠ [] ∧ (backtick :: rest).isPrefixOf after then some table else none
  else none

def dropTable : Str → Option Str := matchTable "DROP TABLE IF EXISTS `".toList ";".toList

def createTable : Str → Option Str := matchTable "CREATE TABLE `".toList []

def insertInto : Str → Option Str := matchTable "INSERT INTO `".toList []

def tableFromLine (line : Str) : Option Str :=
  [dropTable, createTable, insertInto].findSome? fun regex ↦ regex line

def isLogTable (T : Tables) (table : Str) : Bool :=
  occursIn "log".toList (lower T (rstripChar backtick (lstripChar backtick table)))

/-! ## Normalised lines -/

/-- Inside an occurrence that is being replaced, the rest of it is passed over. -/
def replaceFrom (old new : Str) : ℕ → Str → Str
  | _, [] => []
  | n + 1, _ :: s => replaceFrom old new n s
  | 0, c :: s =>
      if old.isPrefixOf (c :: s) then new ++ replaceFrom old new (old.length - 1) s
      else c :: replaceFrom old new 0 s

/-- `s.replace(old, new)` -/
def replaceAll (old new : String) (s : Str) : Str := replaceFrom old.toList new.toList 0 s

def normalizeLine (line : Str) : Str :=
  let line := replaceAll "ROW_FORMAT = Compact" "ROW_FORMAT = Dynamic" line
  let line := replaceAll "ROW_FORMAT=Compact" "ROW_FORMAT=Dynamic" line
  let line := replaceAll "ROW_FORMAT = COMPACT" "ROW_FORMAT = DYNAMIC" line
  let line := replaceAll "ROW_FORMAT=COMPACT" "ROW_FORMAT=DYNAMIC" line
  let line := replaceAll "utf8mb4_0900_ai_ci" "utf8mb4_unicode_ci" line
  replaceAll "utf8mb4_0900_bin" "utf8mb4_bin" line

def isSetLine (normalized : Str) : Bool :=
  "SET NAMES ".toList.isPrefixOf normalized ||
    "SET FOREIGN_KEY_CHECKS".toList.isPrefixOf normalized

/-! ## The loop over the lines -/

structure CleanState where
  skippingTable : Bool
  skippedTables : List Str
  skippedLines : ℕ
  writtenLines : ℕ
  written : List Str

/-- What is written, and the result. -/
structure FixedDump where
  written : List Str
  skippedLines : ℕ
  writtenLines : ℕ
  skippedTables : List Str

def dumpPreamble : List Str :=
  ["-- Fixed for MySQL import: log tables removed, utf8mb4_0900 normalized, ROW_FORMAT Dynamic.\n",
    "SET NAMES utf8mb4;\n", "SET FOREIGN_KEY_CHECKS = 0;\n",
    "SET SQL_MODE = 'NO_AUTO_VALUE_ON_ZERO';\n\n"].map String.toList

namespace CleanState

variable (T : Tables) (s : CleanState)

def skipTable (table : Str) : CleanState :=
  { s with
    skippingTable := true
    skippedTables :=
      if s.skippedTables.contains table then s.skippedTables else s.skippedTables ++ [table]
    skippedLines := s.skippedLines + 1 }

/-- A line that is no marker of a log table. -/
def cleanStatement (line : Str) : CleanState :=
  match (tableFromLine line).filter (isLogTable T) with
  | some table => s.skipTable table
  | none =>
      if s.skippingTable then { s with skippedLines := s.skippedLines + 1 }
      else
        let normalized := normalizeLine line
        if isSetLine normalized then s
        else { s with written := s.written ++ [normalized], writtenLines := s.writtenLines + 1 }

def cleanLine (line : Str) : CleanState :=
  match tableMarker line with
  | some table =>
      if isLogTable T table then s.skipTable table
      else { s with skippingTable := false }.cleanStatement T line
  | none => s.cleanStatement T line

end CleanState

/-- Strings in the order of their code points. -/
def strLe : Str → Str → Bool
  | [], _ => true
  | _ :: _, [] => false
  | c :: s, d :: t => decide (c.toNat < d.toNat) || c == d && strLe s t

def fixDump (T : Tables) (lines : List Str) : FixedDump :=
  let s := lines.foldl (CleanState.cleanLine T) ⟨false, [], 0, 0, dumpPreamble⟩
  ⟨s.written, s.skippedLines, s.writtenLines, s.skippedTables.mergeSort strLe⟩

/-! ## The lines of a table -/

def namedTable (line : Str) : Option Str := (tableMarker line).or (tableFromLine line)

/-- Each line with the table that was named last. -/
def assignedLines : Option Str → List Str → List (Str × Option Str)
  | _, [] => []
  | current, line :: lines =>
      let table := (namedTable line).or current
      (line, table) :: assignedLines table lines

/-- The normalised lines of all tables but the log tables. -/
def keptLines (T : Tables) (current : Option Str) (lines : List Str) : List Str :=
  (((assignedLines current lines).filter fun l ↦ !l.2.any (isLogTable T)).map fun l ↦
    normalizeLine l.1).filter fun l ↦ !isSetLine l

/-- A statement names a table that is no log table, a line before it names one, and no
comment line between them names another. -/
def LosesTable (T : Tables) (lines : List Str) : Prop :=
  ∃ before log between header after, lines = before ++ log :: (between ++ header :: after) ∧
    (namedTable log).any (isLogTable T) = true ∧
    (∀ l ∈ between, (tableMarker l).all (isLogTable T) = true) ∧
    (tableFromLine header).any (fun table ↦ !isLogTable T table) = true

section Lines

variable {T : Tables} {line : Str}

theorem head?_of_isPrefixOf {c : Char} {lead : Str} (h : (c :: lead).isPrefixOf line = true) :
    line.head? = some c := by
  obtain ⟨s, rfl⟩ := List.isPrefixOf_iff_prefix.mp h
  rfl

theorem head?_of_tableMarker {table : Str} (h : tableMarker line = some table) :
    line.head? = some '-' := by
  rw [tableMarker] at h
  by_cases hlead : "-- Table structure for ".toList.isPrefixOf line = true
  · exact head?_of_isPrefixOf hlead
  · rw [if_neg hlead] at h
    exact nomatch h

theorem isPrefixOf_of_matchTable {lead rest table : Str}
    (h : matchTable lead rest line = some table) : lead.isPrefixOf line = true := by
  rw [matchTable] at h
  by_contra hlead
  rw [if_neg hlead] at h
  exact nomatch h

theorem head?_of_tableFromLine {table : Str} (h : tableFromLine line = some table) :
    line.head? = some 'D' ∨ line.head? = some 'C' ∨ line.head? = some 'I' := by
  obtain ⟨regex, hregex, hmatch⟩ := List.exists_of_findSome?_eq_some h
  simp only [List.mem_cons, List.not_mem_nil, or_false] at hregex
  rcases hregex with rfl | rfl | rfl
  · exact .inl (head?_of_isPrefixOf (isPrefixOf_of_matchTable hmatch))
  · exact .inr (.inl (head?_of_isPrefixOf (isPrefixOf_of_matchTable hmatch)))
  · exact .inr (.inr (head?_of_isPrefixOf (isPrefixOf_of_matchTable hmatch)))

theorem tableFromLine_of_tableMarker {table : Str} (h : tableMarker line = some table) :
    tableFromLine line = none := by
  rw [Option.eq_none_iff_forall_ne_some]
  intro other hother
  have hdash := head?_of_tableMarker h
  rcases head?_of_tableFromLine hother with hhead | hhead | hhead
  all_goals
    rw [hdash] at hhead
    exact absurd (Option.some.inj hhead) (by decide)

theorem replaceAll_cons {old new : String} {c d : Char} {o : Str} (hold : old.toList = d :: o)
    (hne : d ≠ c) (s : Str) : replaceAll old new (c :: s) = c :: replaceAll old new s := by
  have hno : old.toList.isPrefixOf (c :: s) = false := by
    rw [hold, List.isPrefixOf, beq_false_of_ne hne, Bool.false_and]
  rw [replaceAll, replaceFrom, hno]
  rfl

theorem exists_normalizeLine_cons {c : Char} (hR : 'R' ≠ c) (hu : 'u' ≠ c) (s : Str) :
    ∃ t, normalizeLine (c :: s) = c :: t := by
  refine ⟨normalizeLine s, ?_⟩
  rw [normalizeLine, replaceAll_cons rfl hR, replaceAll_cons rfl hR, replaceAll_cons rfl hR,
    replaceAll_cons rfl hR, replaceAll_cons rfl hu, replaceAll_cons rfl hu]
  rfl

theorem isSetLine_of_tableFromLine {table : Str} (h : tableFromLine line = some table) :
    isSetLine (normalizeLine line) = false := by
  have hplain : ∀ (c : Char) (s : Str), 'S' ≠ c → isSetLine (c :: s) = false := by
    intro c s hc
    simp [isSetLine, List.isPrefixOf, hc]
  cases line with
  | nil => simpa using head?_of_tableFromLine h
  | cons c s =>
      have hhead : c = 'D' ∨ c = 'C' ∨ c = 'I' := by simpa using head?_of_tableFromLine h
      have hc : 'R' ≠ c ∧ 'u' ≠ c ∧ 'S' ≠ c := by
        rcases hhead with rfl | rfl | rfl <;> decide
      obtain ⟨t, ht⟩ := exists_normalizeLine_cons hc.1 hc.2.1 s
      rw [ht]
      exact hplain c t hc.2.2

end Lines

/-! ## What is left out -/

section Skipping

variable (T : Tables)

def namesLogTable (line : Str) : Bool := (namedTable line).any (isLogTable T)

/-- A comment line that names another table ends the skipping. -/
def endsSkipping (line : Str) : Bool := (tableMarker line).any fun table ↦ !isLogTable T table

def namesOtherTable (line : Str) : Bool := (namedTable line).any fun table ↦ !isLogTable T table

def normalizedLines (line : Str) : List Str :=
  if isSetLine (normalizeLine line) then [] else [normalizeLine line]

theorem cleanStatement_eq {s : CleanState} {line : Str}
    (h : (tableFromLine line).filter (isLogTable T) = none) :
    (s.cleanStatement T line).skippingTable = s.skippingTable ∧
      (s.cleanStatement T line).written =
        s.written ++ if s.skippingTable then [] else normalizedLines line := by
  rw [CleanState.cleanStatement, h]
  by_cases hskipping : s.skippingTable = true
  · simp only [hskipping, if_true, List.append_nil, and_self]
  · by_cases hset : isSetLine (normalizeLine line) = true
    · simp [hskipping, hset, normalizedLines]
    · simp [hskipping, hset, normalizedLines]

theorem cleanLine_eq (s : CleanState) (line : Str) :
    (s.cleanLine T line).skippingTable =
        latch (namesLogTable T) (endsSkipping T) s.skippingTable line ∧
      (s.cleanLine T line).written = s.written ++
        if latch (namesLogTable T) (endsSkipping T) s.skippingTable line then []
        else normalizedLines line := by
  rw [CleanState.cleanLine]
  cases hmarker : tableMarker line with
  | some table =>
      have hnone := tableFromLine_of_tableMarker hmarker
      by_cases hlog : isLogTable T table = true
      · have hlatch : latch (namesLogTable T) (endsSkipping T) s.skippingTable line = true := by
          simp [latch, namesLogTable, namedTable, hmarker, hlog]
        simp only [hlog, if_true, hlatch, List.append_nil]
        exact ⟨rfl, rfl⟩
      · have hlatch : latch (namesLogTable T) (endsSkipping T) s.skippingTable line = false := by
          simp [latch, namesLogTable, endsSkipping, namedTable, hmarker, hlog]
        simp only [hlog, hlatch]
        exact cleanStatement_eq T (by rw [hnone]; rfl)
  | none =>
      have hkeeps : (tableFromLine line).any (isLogTable T) = false →
          latch (namesLogTable T) (endsSkipping T) s.skippingTable line = s.skippingTable := by
        intro hlog
        simp [latch, namesLogTable, endsSkipping, namedTable, hmarker, hlog]
      simp only
      cases htable : tableFromLine line with
      | none =>
          rw [hkeeps (by rw [htable]; rfl)]
          exact cleanStatement_eq T (by rw [htable]; rfl)
      | some table =>
          by_cases hlog : isLogTable T table = true
          · have hlatch : latch (namesLogTable T) (endsSkipping T) s.skippingTable line = true := by
              simp [latch, namesLogTable, namedTable, hmarker, htable, hlog]
            rw [CleanState.cleanStatement, htable, Option.filter_some, if_pos hlog]
            simp only [hlatch, if_true, List.append_nil]
            exact ⟨rfl, rfl⟩
          · rw [hkeeps (by rw [htable, Option.any_some, Bool.not_eq_true] at *; exact hlog)]
            exact cleanStatement_eq T (by rw [htable, Option.filter_some, if_neg hlog])

theorem written_foldl_cleanLine (s : CleanState) (lines : List Str) :
    (lines.foldl (CleanState.cleanLine T) s).written =
      s.written ++ emitted (namesLogTable T) (endsSkipping T) normalizedLines s.skippingTable
        lines := by
  induction lines generalizing s with
  | nil => simp [emitted]
  | cons line lines ih =>
      obtain ⟨hskipping, hwritten⟩ := cleanLine_eq T s line
      calc
        ((line :: lines).foldl (CleanState.cleanLine T) s).written =
            (s.cleanLine T line).written ++ emitted (namesLogTable T) (endsSkipping T)
              normalizedLines (s.cleanLine T line).skippingTable lines := ih _
        _ = _ := by rw [hskipping, hwritten, emitted, List.append_assoc]

/-- A line is kept unless the latch that every name of another table clears is set. -/
theorem keptLines_eq (current : Option Str) (lines : List Str) :
    keptLines T current lines = emitted (namesLogTable T) (namesOtherTable T) normalizedLines
      (current.any (isLogTable T)) lines := by
  induction lines generalizing current with
  | nil => rfl
  | cons line lines ih =>
      have hlatch : latch (namesLogTable T) (namesOtherTable T) (current.any (isLogTable T)) line =
          ((namedTable line).or current).any (isLogTable T) := by
        rw [latch, namesLogTable, namesOtherTable]
        cases namedTable line with
        | none => simp
        | some table => cases h : isLogTable T table <;> simp [h]
      rw [emitted, hlatch, ← ih, keptLines, assignedLines, List.filter_cons]
      cases hskipped : ((namedTable line).or current).any (isLogTable T) with
      | true => simp [keptLines]
      | false =>
          rw [if_neg Bool.false_ne_true, if_pos (by simp), List.map_cons,
            List.filter_cons, normalizedLines]
          cases isSetLine (normalizeLine line) <;> rfl

/-- Only a statement that names another table does so without ending the skipping. -/
theorem names_other_iff (line : Str) :
    namesLogTable T line = false ∧ endsSkipping T line = false ∧ namesOtherTable T line = true ↔
      (tableFromLine line).any (fun table ↦ !isLogTable T table) = true := by
  rw [namesLogTable, endsSkipping, namesOtherTable, namedTable]
  cases hmarker : tableMarker line with
  | some table => simp [tableFromLine_of_tableMarker hmarker]
  | none => cases tableFromLine line <;> simp

theorem losesTable_iff (lines : List Str) :
    LosesTable T lines ↔ ∃ before header after, lines = before ++ header :: after ∧
      latched (namesLogTable T) (endsSkipping T) false before = true ∧
      namesLogTable T header = false ∧ endsSkipping T header = false ∧
      namesOtherTable T header = true := by
  have hkeeps : ∀ line,
      endsSkipping T line = false ↔ (tableMarker line).all (isLogTable T) = true := by
    intro line
    rw [endsSkipping]
    cases tableMarker line <;> simp
  constructor
  · rintro ⟨before, log, between, header, after, rfl, hlog, hbetween, hother⟩
    refine ⟨before ++ log :: between, header, after, by simp, ?_,
      (names_other_iff T header).mpr hother⟩
    rw [latched_eq_true_iff]
    exact .inr ⟨before, log, between, rfl, hlog, fun l hl ↦ (hkeeps l).mpr (hbetween l hl)⟩
  · rintro ⟨before, header, after, rfl, hlatched, hother⟩
    rw [latched_eq_true_iff] at hlatched
    rcases hlatched with ⟨hfalse, _⟩ | ⟨first, log, between, rfl, hlog, hbetween⟩
    · exact nomatch hfalse
    · exact ⟨first, log, between, header, after, by simp, hlog,
        fun l hl ↦ (hkeeps l).mp (hbetween l hl), (names_other_iff T header).mp hother⟩

/-- The cleaned dump has the lines of all tables but the log tables exactly when no table
is named by a statement alone after a log table. -/
theorem fixDump_written_iff (lines : List Str) :
    (fixDump T lines).written = dumpPreamble ++ keptLines T none lines ↔ ¬LosesTable T lines := by
  have hclears : ∀ line, endsSkipping T line = true → namesOtherTable T line = true := by
    intro line h
    rw [endsSkipping, Option.any_eq_true] at h
    obtain ⟨table, hmarker, hother⟩ := h
    rw [namesOtherTable, namedTable, hmarker]
    exact hother
  have hout : ∀ line, namesLogTable T line = false → endsSkipping T line = false →
      namesOtherTable T line = true → normalizedLines line ≠ [] := by
    intro line hlog hkeeps hother
    have hstatement := (names_other_iff T line).mp ⟨hlog, hkeeps, hother⟩
    rw [Option.any_eq_true] at hstatement
    obtain ⟨table, htable, _⟩ := hstatement
    rw [normalizedLines, isSetLine_of_tableFromLine htable, if_neg Bool.false_ne_true]
    exact List.cons_ne_nil _ _
  calc
    (fixDump T lines).written = dumpPreamble ++ keptLines T none lines ↔
        emitted (namesLogTable T) (endsSkipping T) normalizedLines false lines =
          emitted (namesLogTable T) (namesOtherTable T) normalizedLines false lines := by
      rw [fixDump, written_foldl_cleanLine, List.append_cancel_left_eq, keptLines_eq]
      exact Iff.rfl
    _ ↔ ¬LosesTable T lines := by
      rw [losesTable_iff]
      exact emitted_eq_iff _ _ hclears hout

end Skipping

/-- A log table and another one, without comment lines. -/
def logThenUsers : List Str :=
  ["DROP TABLE IF EXISTS `audit_log`;\n", "DROP TABLE IF EXISTS `users`;\n"].map String.toList

theorem users_lost : (fixDump Tables.ascii logThenUsers).written ≠
    dumpPreamble ++ keptLines Tables.ascii none logThenUsers := by
  intro h
  exact absurd (congrArg List.length h) (by decide)

end StorageReconciler
