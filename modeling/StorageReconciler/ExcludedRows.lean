import StorageReconciler.DeleteObjects
import StorageReconciler.Sheets

/-!
# Rows excluded from deletion

A deletion report lists on a sheet of its own what was excluded.  The sheet can be
read again and its addresses checked once more; what passes is released, and the rest
is what the next report excludes.  Over any number of such rounds no row is lost and
none is added.
-/

namespace StorageReconciler

open Strings

/-! ## The report -/

structure DeletionRequest where
  bucket : Str
  key : Str
  path : Option Str
  sizeMb : Cell
  deriving DecidableEq

/-- A row of the excluded sheet, and the error of its check if it failed one. -/
structure ExcludedEntry where
  bucket : Cell
  key : Cell
  destinationUrl : Cell
  status : Cell
  reason : Cell
  error : Option Str
  deriving DecidableEq

/-- `value or ""` -/
def orEmpty (c : Cell) : Cell := if c.truthy then c else .text []

def deletionHeaders : List Str := ["Bucket", "Key", "Path", "Size (MB)", "Error"].map String.toList

def excludedHeaders : List Str :=
  ["Bucket", "Key", "Destination URL", "Status", "Reason"].map String.toList

def deletionRow (request : Option DeletionRequest) (result : DeleteResult) : List Cell :=
  [.ofOption (orElse (some result.bucket) (request.map DeletionRequest.bucket)),
    .ofOption (orElse (some result.key) (request.map DeletionRequest.key)),
    .ofOption (request.bind DeletionRequest.path),
    (request.map DeletionRequest.sizeMb).getD .blank, .ofOption result.error]

def excludedRow (item : ExcludedEntry) : List Cell :=
  [orEmpty item.bucket, orEmpty item.key, orEmpty item.destinationUrl, orEmpty item.status,
    if item.reason.truthy then item.reason else .ofOption item.error]

def generateDeletionReport (requested : List DeletionRequest) (results : List DeleteResult)
    (excluded : List ExcludedEntry) : Workbook :=
  let rows := results.zipIdx.map fun r ↦ (r.1.success, deletionRow requested[r.2]? r.1)
  let deleted := (rows.filter fun r ↦ r.1).map Prod.snd
  let failed := (rows.filter fun r ↦ !r.1).map Prod.snd
  [("Summary".toList, [[.text "Status".toList, .text "Count".toList],
      [.text "Deleted".toList, countCell deleted.length],
      [.text "Failed".toList, countCell failed.length],
      [.text "Excluded".toList, countCell excluded.length]]),
    ("Deleted".toList, deletionHeaders.map .text :: deleted),
    ("Failed".toList, deletionHeaders.map .text :: failed),
    ("Excluded".toList, excludedHeaders.map .text :: excluded.map excludedRow)]

/-! ## Reading it again -/

def excludedSheet? (workbook : Workbook) : Option (List (List Cell)) :=
  (workbook.find? fun s ↦ decide (s.1 = "Excluded".toList)).map Prod.snd

def isBlankRow (row : List Cell) : Bool := row.all (· == .blank)

def excludedEntry (T : Tables) (header row : List Cell) : ExcludedEntry where
  bucket := cellValue T header row "bucket".toList
  key := cellValue T header row "key".toList
  destinationUrl := cellValue T header row "destination url".toList
  status :=
    let status := cellValue T header row "status".toList
    if status.truthy then status else .text "Excluded".toList
  reason := cellValue T header row "reason".toList
  error := none

def ExcludedEntry.isRetryable (item : ExcludedEntry) : Bool :=
  item.bucket.truthy && item.key.truthy && item.destinationUrl.truthy

/-- Candidates to be checked again, and rows that cannot be. -/
def parseDeletionExcludedReport (T : Tables) (workbook : Workbook) :
    Except Str (List ExcludedEntry × List ExcludedEntry) :=
  match excludedSheet? workbook with
  | none => .error ("No 'Excluded' sheet found in the uploaded file — upload a deletion report " ++
      "downloaded from this app's own delete flow.").toList
  | some [] => .ok ([], [])
  | some (header :: rows) =>
      if header = [] then .ok ([], [])
      else
        let missing := (["bucket", "key", "destination url"].map String.toList).filter fun name ↦
          (colIndex T header name).isNone
        if missing ≠ [] then
          .error ("'Excluded' sheet is missing expected column(s): ".toList ++
            ", ".toList.intercalate missing)
        else
          let items := (rows.filter fun row ↦ !isBlankRow row).map (excludedEntry T header)
          .ok (items.filter fun item ↦ item.isRetryable, items.filter fun item ↦ !item.isRetryable)

structure SafeRow where
  bucket : Cell
  key : Cell
  status : Cell
  deriving DecidableEq

/-- The outcomes of the checks by the number of the candidate, and what was deleted
before the next report. -/
structure RetryRound where
  outcomes : ℕ → Bool × Option Str
  requested : List DeletionRequest
  results : List DeleteResult

def failedAgain (item : ExcludedEntry) (error : Option Str) : ExcludedEntry where
  bucket := item.bucket
  key := item.key
  destinationUrl := item.destinationUrl
  status := .text "Excluded".toList
  reason := (error.map Cell.text).getD .blank
  error := error

/-- The excluded sheet is read, its candidates are checked, and the next report written. -/
def retryRound (T : Tables) (workbook : Workbook) (round : RetryRound) :
    Except Str (List SafeRow × Workbook) := do
  let (candidates, unretryable) ← parseDeletionExcludedReport T (workbook.reread readBackCell)
  let valid := candidates.zipIdx.filter fun p ↦ (round.outcomes p.2).1
  let failures := candidates.zipIdx.filter fun p ↦ !(round.outcomes p.2).1
  return (valid.map fun p ↦ ⟨p.1.bucket, p.1.key, p.1.status⟩,
    generateDeletionReport round.requested round.results
      (unretryable ++ failures.map fun p ↦ failedAgain p.1 (round.outcomes p.2).2))

/-- The rows released in each round, and the last report. -/
def retryRounds (T : Tables) (workbook : Workbook) :
    List RetryRound → Except Str (List (List SafeRow) × Workbook)
  | [] => .ok ([], workbook)
  | round :: rounds => do
      let (rows, next) ← retryRound T workbook round
      let (released, last) ← retryRounds T next rounds
      return (rows :: released, last)

/-! ## What a row names -/

/-- Bucket, key and destination URL of a row. -/
structure ExcludedName where
  bucket : Cell
  key : Cell
  destinationUrl : Cell
  deriving DecidableEq

def ExcludedEntry.name (item : ExcludedEntry) : ExcludedName :=
  ⟨item.bucket, item.key, item.destinationUrl⟩

/-- What the rows of the excluded sheet name, when it is opened. -/
def excludedNames (T : Tables) (workbook : Workbook) : List ExcludedName :=
  match excludedSheet? (workbook.reread readBackCell) with
  | some (header :: rows) =>
      (rows.filter fun row ↦ !isBlankRow row).map fun row ↦ (excludedEntry T header row).name
  | _ => []

/-- Texts and empty cells. -/
def HasTextCells (workbook : Workbook) : Prop :=
  ∀ rows ∈ excludedSheet? workbook, ∀ row ∈ rows, ∀ c ∈ row, c = .blank ∨ ∃ s, c = .text s

/-- An empty cell, or a text with content. -/
def Cell.IsRead (c : Cell) : Prop := c = .blank ∨ ∃ s, s ≠ [] ∧ c = .text s

theorem isRead_readBackCell {c : Cell} (h : c = .blank ∨ ∃ s, c = .text s) :
    (readBackCell c).IsRead := by
  rcases h with rfl | ⟨s, rfl⟩
  · exact .inl rfl
  · by_cases hs : s = []
    · subst hs
      exact .inl rfl
    · rw [readBackCell_text hs]
      exact .inr ⟨s, hs, rfl⟩

theorem Cell.IsRead.readBack_orEmpty {c : Cell} (h : c.IsRead) :
    readBackCell (orEmpty c) = c := by
  rcases h with rfl | ⟨s, hs, rfl⟩
  · rfl
  · have htruthy : (Cell.text s).truthy = true := by simpa [Cell.truthy] using hs
    rw [orEmpty, if_pos htruthy, readBackCell_text hs]

theorem Cell.IsRead.orEmpty_isText {c : Cell} (h : c.IsRead) : ∃ s, orEmpty c = .text s := by
  rcases h with rfl | ⟨s, hs, rfl⟩
  · exact ⟨[], rfl⟩
  · refine ⟨s, ?_⟩
    rw [orEmpty, if_pos (by simpa [Cell.truthy] using hs)]

theorem cellValue_isRead {T : Tables} {header row : List Cell} (name : Str)
    (hrow : ∀ c ∈ row, c.IsRead) : (cellValue T header row name).IsRead := by
  unfold cellValue
  cases colIndex T header name with
  | none => exact .inl rfl
  | some i =>
      cases hcell : row[i]? with
      | none =>
          simp only [hcell, Option.getD_none]
          exact .inl rfl
      | some c =>
          simp only [hcell, Option.getD_some]
          exact hrow c (List.mem_of_getElem? hcell)

/-- An item as it comes from a sheet, or from a failed check. -/
structure ExcludedEntry.IsRead (item : ExcludedEntry) : Prop where
  bucket : item.bucket.IsRead
  key : item.key.IsRead
  destinationUrl : item.destinationUrl.IsRead
  status : ∃ s, s ≠ [] ∧ item.status = .text s
  reason : item.reason = .blank ∨ ∃ s, item.reason = .text s

theorem excludedEntry_isRead {T : Tables} {header row : List Cell} (hrow : ∀ c ∈ row, c.IsRead) :
    (excludedEntry T header row).IsRead := by
  refine ⟨cellValue_isRead _ hrow, cellValue_isRead _ hrow, cellValue_isRead _ hrow, ?_, ?_⟩
  · have hstatus : (cellValue T header row "status".toList).IsRead := cellValue_isRead _ hrow
    unfold excludedEntry
    simp only
    split_ifs with htruthy
    · rcases hstatus with hblank | htext
      · rw [hblank] at htruthy
        exact absurd htruthy Bool.false_ne_true
      · exact htext
    · exact ⟨_, by decide, rfl⟩
  · have hreason : (cellValue T header row "reason".toList).IsRead := cellValue_isRead _ hrow
    rcases hreason with hblank | htext
    · exact .inl hblank
    · obtain ⟨s, _, hs⟩ := htext
      exact .inr ⟨s, hs⟩

theorem ExcludedEntry.IsRead.failedAgain {item : ExcludedEntry} (h : item.IsRead)
    (error : Option Str) : (failedAgain item error).IsRead := by
  refine ⟨h.bucket, h.key, h.destinationUrl, ⟨"Excluded".toList, by decide, rfl⟩, ?_⟩
  cases error with
  | none => exact .inl rfl
  | some e => exact .inr ⟨e, rfl⟩

/-! ## Writing and reading -/

theorem plain_excludedHeaders :
    ∀ s ∈ excludedHeaders, strip s = s ∧ ∀ c ∈ s, isAscii c = true := by
  decide

theorem map_readBackCell_excludedHeaders :
    (excludedHeaders.map Cell.text).map readBackCell = excludedHeaders.map .text := by
  decide

theorem excludedSheet?_reread_report (requested : List DeletionRequest)
    (results : List DeleteResult) (excluded : List ExcludedEntry) :
    excludedSheet? ((generateDeletionReport requested results excluded).reread readBackCell) =
      some (excludedHeaders.map .text ::
        (excluded.map excludedRow).map fun row ↦ row.map readBackCell) := by
  rw [← map_readBackCell_excludedHeaders]
  rfl

theorem ExcludedEntry.IsRead.row {item : ExcludedEntry} (h : item.IsRead) (T : Tables) :
    isBlankRow ((excludedRow item).map readBackCell) = false ∧
      (excludedEntry T (excludedHeaders.map .text) ((excludedRow item).map readBackCell)).name =
        item.name := by
  have hbucket : columnOf excludedHeaders "bucket".toList = some 0 := by decide
  have hkey : columnOf excludedHeaders "key".toList = some 1 := by decide
  have hurl : columnOf excludedHeaders "destination url".toList = some 2 := by decide
  constructor
  · obtain ⟨s, hs, hstatus⟩ := h.status
    have htruthy : (Cell.text s).truthy = true := by simpa [Cell.truthy] using hs
    have hcell : readBackCell (orEmpty item.status) = .text s := by
      rw [hstatus, orEmpty, if_pos htruthy, readBackCell_text hs]
    simp [isBlankRow, excludedRow, hcell]
  · rw [ExcludedEntry.name, ExcludedEntry.name]
    simp only [excludedEntry, cellValue_text _ plain_excludedHeaders hbucket,
      cellValue_text _ plain_excludedHeaders hkey, cellValue_text _ plain_excludedHeaders hurl]
    simp only [excludedRow, List.map_cons, List.getElem?_cons_zero, List.getElem?_cons_succ,
      Option.getD_some, h.bucket.readBack_orEmpty, h.key.readBack_orEmpty,
      h.destinationUrl.readBack_orEmpty]

theorem excludedNames_report {T : Tables} {excluded : List ExcludedEntry}
    (h : ∀ item ∈ excluded, item.IsRead) (requested : List DeletionRequest)
    (results : List DeleteResult) :
    excludedNames T (generateDeletionReport requested results excluded) =
      excluded.map ExcludedEntry.name := by
  rw [excludedNames, excludedSheet?_reread_report]
  simp only [List.map_map]
  have hkept : (excluded.map ((fun row ↦ row.map readBackCell) ∘ excludedRow)).filter
      (fun row ↦ !isBlankRow row) =
        excluded.map ((fun row ↦ row.map readBackCell) ∘ excludedRow) := by
    rw [List.filter_eq_self]
    intro row hrow
    obtain ⟨item, hitem, rfl⟩ := List.mem_map.mp hrow
    rw [Function.comp, ((h item hitem).row T).1]
    rfl
  rw [hkept, List.map_map]
  exact List.map_congr_left fun item hitem ↦ ((h item hitem).row T).2

theorem hasTextCells_report {excluded : List ExcludedEntry}
    (h : ∀ item ∈ excluded, item.IsRead) (requested : List DeletionRequest)
    (results : List DeleteResult) :
    HasTextCells (generateDeletionReport requested results excluded) := by
  rintro rows hrows row hrow c hc
  obtain rfl : excludedHeaders.map .text :: excluded.map excludedRow = rows :=
    Option.some.inj hrows
  right
  rcases List.mem_cons.mp hrow with rfl | hrow
  · obtain ⟨s, _, rfl⟩ := List.mem_map.mp hc
    exact ⟨s, rfl⟩
  · obtain ⟨item, hitem, rfl⟩ := List.mem_map.mp hrow
    have hitem := h item hitem
    simp only [excludedRow, List.mem_cons, List.not_mem_nil, or_false] at hc
    rcases hc with rfl | rfl | rfl | rfl | rfl
    · exact hitem.bucket.orEmpty_isText
    · exact hitem.key.orEmpty_isText
    · exact hitem.destinationUrl.orEmpty_isText
    · obtain ⟨s, hs, hstatus⟩ := hitem.status
      exact hstatus ▸ Cell.IsRead.orEmpty_isText (.inr ⟨s, hs, rfl⟩)
    · split_ifs with htruthy
      · rcases hitem.reason with hblank | htext
        · rw [hblank] at htruthy
          exact absurd htruthy Bool.false_ne_true
        · exact htext
      · cases item.error with
        | none => exact ⟨[], rfl⟩
        | some e => exact ⟨e, rfl⟩

/-! ## Rounds -/

section Rounds

variable {T : Tables} {workbook : Workbook}

theorem excludedSheet?_reread (workbook : Workbook) :
    excludedSheet? (workbook.reread readBackCell) =
      (excludedSheet? workbook).map fun rows ↦ rows.map fun row ↦ row.map readBackCell := by
  rw [excludedSheet?, excludedSheet?, Workbook.reread, List.find?_map, Option.map_map,
    Option.map_map]
  rfl

/-- A workbook of texts that is accepted, its first row having cells. -/
structure IsDeletionReport (T : Tables) (workbook : Workbook) : Prop where
  cells : HasTextCells workbook
  header : ∀ rows, excludedSheet? workbook = some rows → rows.head? ≠ some []
  accepted : ∃ items, parseDeletionExcludedReport T (workbook.reread readBackCell) = .ok items

theorem isDeletionReport_report {excluded : List ExcludedEntry}
    (h : ∀ item ∈ excluded, item.IsRead) (T : Tables) (requested : List DeletionRequest)
    (results : List DeleteResult) :
    IsDeletionReport T (generateDeletionReport requested results excluded) := by
  refine ⟨hasTextCells_report h requested results, ?_, ?_⟩
  · rintro rows hrows
    obtain rfl : excludedHeaders.map .text :: excluded.map excludedRow = rows :=
      Option.some.inj hrows
    exact (by decide : (some (excludedHeaders.map Cell.text) : Option (List Cell)) ≠ some [])
  · rw [parseDeletionExcludedReport, excludedSheet?_reread_report]
    have hcolumns : (["bucket", "key", "destination url"].map String.toList).filter (fun name ↦
        (colIndex T (excludedHeaders.map .text) name).isNone) = [] := by
      simp only [colIndex_text _ plain_excludedHeaders]
      decide
    simp only [hcolumns, ne_eq, not_true_eq_false, if_false]
    rw [if_neg (by decide)]
    exact ⟨_, rfl⟩

/-- Whatever is on the sheet is read, one way or the other. -/
theorem IsDeletionReport.parse (h : IsDeletionReport T workbook)
    {candidates unretryable : List ExcludedEntry}
    (hparse : parseDeletionExcludedReport T (workbook.reread readBackCell) =
      .ok (candidates, unretryable)) :
    ((candidates ++ unretryable).map ExcludedEntry.name).Perm (excludedNames T workbook) ∧
      ∀ item ∈ candidates ++ unretryable, item.IsRead := by
  rw [parseDeletionExcludedReport] at hparse
  rw [excludedNames]
  cases hsheet : excludedSheet? (workbook.reread readBackCell) with
  | none =>
      rw [hsheet] at hparse
      exact nomatch hparse
  | some sheet =>
      rw [hsheet] at hparse
      cases sheet with
      | nil =>
          obtain ⟨rfl, rfl⟩ := Prod.mk.inj (Except.ok.inj hparse)
          exact ⟨.refl _, fun item hitem ↦ absurd hitem List.not_mem_nil⟩
      | cons header rows =>
          rw [excludedSheet?_reread] at hsheet
          obtain ⟨written, hwritten, hrows⟩ := Option.map_eq_some_iff.mp hsheet
          have hheader : header ≠ [] := by
            rintro rfl
            cases written with
            | nil => exact nomatch hrows
            | cons first rest =>
                have hfirst : first = [] := List.map_eq_nil_iff.mp (List.cons.inj hrows).1
                exact h.header _ hwritten (by rw [hfirst]; rfl)
          have hread : ∀ row ∈ rows, ∀ c ∈ row, c.IsRead := by
            intro row hrow c hc
            have hmem : row ∈ written.map fun row ↦ row.map readBackCell :=
              hrows ▸ List.mem_cons_of_mem header hrow
            obtain ⟨row', hrow', rfl⟩ := List.mem_map.mp hmem
            obtain ⟨c', hc', rfl⟩ := List.mem_map.mp hc
            exact isRead_readBackCell (h.cells written hwritten row' hrow' c' hc')
          simp only [if_neg hheader] at hparse
          split_ifs at hparse
          obtain ⟨rfl, rfl⟩ := Prod.mk.inj (Except.ok.inj hparse)
          have hsplit := List.filter_append_perm (fun item : ExcludedEntry ↦ item.isRetryable)
            ((rows.filter fun row ↦ !isBlankRow row).map (excludedEntry T header))
          constructor
          · refine (hsplit.map ExcludedEntry.name).trans (.of_eq ?_)
            rw [List.map_map]
            rfl
          · intro item hitem
            obtain ⟨row, hrow, rfl⟩ := List.mem_map.mp (hsplit.mem_iff.mp hitem)
            exact excludedEntry_isRead (hread row (List.mem_of_mem_filter hrow))

/-- What is released in a round and what stays excluded are the rows there were. -/
theorem retryRound_conserves (h : IsDeletionReport T workbook) (round : RetryRound) :
    ∃ (rows : List SafeRow) (next : Workbook) (names : List ExcludedName),
      retryRound T workbook round = .ok (rows, next) ∧ IsDeletionReport T next ∧
      names.map (fun n ↦ (n.bucket, n.key)) =
        rows.map (fun r ↦ (r.bucket, r.key)) ∧
      (names ++ excludedNames T next).Perm (excludedNames T workbook) := by
  obtain ⟨⟨candidates, unretryable⟩, hparse⟩ := h.accepted
  obtain ⟨hperm, hread⟩ := h.parse hparse
  have hcandidates := List.filter_append_perm
    (fun p : ExcludedEntry × ℕ ↦ (round.outcomes p.2).1) candidates.zipIdx
  have hexcluded : ∀ item ∈ unretryable ++ (candidates.zipIdx.filter fun p ↦
      !(round.outcomes p.2).1).map (fun p ↦ failedAgain p.1 (round.outcomes p.2).2),
      item.IsRead := by
    intro item hitem
    rcases List.mem_append.mp hitem with hitem | hitem
    · exact hread item (List.mem_append_right _ hitem)
    · obtain ⟨p, hp, rfl⟩ := List.mem_map.mp hitem
      have hmem : p.1 ∈ candidates := List.fst_mem_of_mem_zipIdx (List.mem_of_mem_filter hp)
      exact (hread p.1 (List.mem_append_left _ hmem)).failedAgain _
  refine ⟨_, _, (candidates.zipIdx.filter fun p ↦ (round.outcomes p.2).1).map fun p ↦ p.1.name,
    by rw [retryRound, hparse]; rfl, isDeletionReport_report hexcluded T _ _, ?_, ?_⟩
  · rw [List.map_map, List.map_map]
    rfl
  · rw [excludedNames_report hexcluded]
    refine .trans ?_ hperm
    have hnames : (candidates.zipIdx.map fun p ↦ p.1.name) = candidates.map ExcludedEntry.name := by
      calc
        _ = (candidates.zipIdx.map Prod.fst).map ExcludedEntry.name := List.map_map.symm
        _ = candidates.map ExcludedEntry.name := by rw [List.zipIdx_map_fst]
    have hchecked := hcandidates.map fun p : ExcludedEntry × ℕ ↦ p.1.name
    rw [List.map_append, hnames] at hchecked
    rw [List.map_append, List.map_append, List.map_map]
    refine .trans ?_ (hchecked.append_right _)
    rw [List.append_assoc]
    exact List.perm_append_comm.append_left _

/-- Over any number of rounds, every row of the excluded sheet is released in one round
or still on the sheet, as often as it was there, and there is no other row. -/
theorem excluded_rows_conserved (h : IsDeletionReport T workbook) (rounds : List RetryRound) :
    ∃ (released : List (List SafeRow)) (last : Workbook) (names : List (List ExcludedName)),
      retryRounds T workbook rounds = .ok (released, last) ∧
      names.map (List.map fun n ↦ (n.bucket, n.key)) =
        released.map (List.map fun r ↦ (r.bucket, r.key)) ∧
      (names.flatten ++ excludedNames T last).Perm (excludedNames T workbook) := by
  induction rounds generalizing workbook with
  | nil => exact ⟨[], workbook, [], rfl, rfl, .refl _⟩
  | cons round rounds ih =>
      obtain ⟨rows, next, names, hround, hnext, hrows, hperm⟩ := retryRound_conserves h round
      obtain ⟨released, last, later, hrounds, hreleased, hlater⟩ := ih hnext
      refine ⟨rows :: released, last, names :: later, ?_, ?_, ?_⟩
      · rw [retryRounds, hround]
        simp [bind, Except.bind, hrounds, pure, Except.pure]
      · rw [List.map_cons, List.map_cons, hrows, hreleased]
      · rw [List.flatten_cons, List.append_assoc]
        exact (hlater.append_left names).trans hperm

end Rounds

def unreachableItem (url : Cell) : ExcludedEntry where
  bucket := .text "media".toList
  key := .text "a.png".toList
  destinationUrl := url
  status := .text "Excluded".toList
  reason := .text "timed out".toList
  error := none

/-- Only the candidate of the number fails its check. -/
def failingRound (n : ℕ) : RetryRound where
  outcomes i := if i = n then (false, some "timed out".toList) else (true, none)
  requested := []
  results := []

/-- A row with a link and one without, over two rounds. -/
def linkAndNoLink : List ExcludedEntry :=
  [unreachableItem (.text "https://media/a.png".toList), unreachableItem .blank]

theorem linkAndNoLink_isRead : ∀ item ∈ linkAndNoLink, item.IsRead := by
  have htext : ∀ s : Str, s ≠ [] → (Cell.text s).IsRead := fun s hs ↦ .inr ⟨s, hs, rfl⟩
  intro item hitem
  rcases List.mem_cons.mp hitem with rfl | hitem
  · exact ⟨htext _ (by decide), htext _ (by decide), htext _ (by decide), ⟨_, by decide, rfl⟩,
      .inr ⟨_, rfl⟩⟩
  · obtain rfl := List.mem_singleton.mp hitem
    exact ⟨htext _ (by decide), htext _ (by decide), .inl rfl, ⟨_, by decide, rfl⟩, .inr ⟨_, rfl⟩⟩

theorem excluded_rows_conserved_linkAndNoLink :
    ∃ (released : List (List SafeRow)) (last : Workbook) (names : List (List ExcludedName)),
      retryRounds Tables.ascii (generateDeletionReport [] [] linkAndNoLink)
        [failingRound 0, failingRound 1] = .ok (released, last) ∧
      names.map (List.map fun n ↦ (n.bucket, n.key)) =
        released.map (List.map fun r ↦ (r.bucket, r.key)) ∧
      (names.flatten ++ excludedNames Tables.ascii last).Perm
        (excludedNames Tables.ascii (generateDeletionReport [] [] linkAndNoLink)) :=
  excluded_rows_conserved (isDeletionReport_report linkAndNoLink_isRead Tables.ascii [] [])
    [failingRound 0, failingRound 1]

/-- A row below a first row without cells is neither released nor excluded any more. -/
theorem row_below_empty_header_lost :
    ¬∀ (T : Tables) (workbook : Workbook) (rounds : List RetryRound), HasTextCells workbook →
      (∃ items, parseDeletionExcludedReport T (workbook.reread readBackCell) = .ok items) →
      ∃ (released : List (List SafeRow)) (last : Workbook) (names : List (List ExcludedName)),
        retryRounds T workbook rounds = .ok (released, last) ∧
        names.map (List.map fun n ↦ (n.bucket, n.key)) =
          released.map (List.map fun r ↦ (r.bucket, r.key)) ∧
        (names.flatten ++ excludedNames T last).Perm (excludedNames T workbook) := by
  intro h
  let workbook : Workbook := [("Excluded".toList, [[], [.text "media".toList]])]
  have hcells : HasTextCells workbook := by
    rintro rows hrows row hrow c hc
    obtain rfl : [[], [Cell.text "media".toList]] = rows := Option.some.inj hrows
    simp only [List.mem_cons, List.not_mem_nil, or_false] at hrow
    rcases hrow with rfl | rfl
    · exact absurd hc List.not_mem_nil
    · exact .inr ⟨_, List.mem_singleton.mp hc⟩
  obtain ⟨released, last, names, hrounds, hnames, hperm⟩ :=
    h Tables.ascii workbook [failingRound 0] hcells ⟨([], []), rfl⟩
  have hlost : retryRounds Tables.ascii workbook [failingRound 0] =
      .ok ([[]], generateDeletionReport [] [] []) := rfl
  obtain ⟨rfl, rfl⟩ := Prod.mk.inj (Except.ok.inj (hlost.symm.trans hrounds))
  have hempty : names.flatten = [] := by
    rw [List.flatten_eq_nil_iff]
    intro l hl
    have hmem := List.mem_map_of_mem (f := List.map fun n : ExcludedName ↦ (n.bucket, n.key)) hl
    rw [hnames] at hmem
    exact List.map_eq_nil_iff.mp (List.mem_singleton.mp hmem)
  have hlength := hperm.length_eq
  rw [hempty] at hlength
  exact absurd hlength (by decide)

end StorageReconciler
