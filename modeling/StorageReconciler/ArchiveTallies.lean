import Mathlib.Data.Rat.Init
import StorageReconciler.ArchivedContents
import StorageReconciler.DeletableReport

/-!
# The tallies of an archive run

The results of a run are counted three times, for the response, for the sizes
and for the report, each time by tests of its own.  They agree since a source is
deleted only after it was verified, and verified only after it was copied.
-/

namespace StorageReconciler

open Strings

/-! ## What a result may say -/

/-- Nothing is deleted before it is verified, or verified before it is copied. -/
structure ArchiveResult.IsChained (result : ArchiveResult) : Prop where
  attempted : result.deleteSuccess = true → result.deleteAttempted = true
  verified : result.deleteAttempted = true → result.archiveVerified = true
  copied : result.archiveVerified = true → result.copySuccess = true

section Runs

variable {σ δ : Type*}

/-- What holds of the results of a run, and of the copies that are being verified. -/
structure ArchiveRun.Chained (run : ArchiveRun σ δ) : Prop where
  verifying : ∀ i, (run.verify i).isBusy = true → run.phase = .verifying
  copied : ∀ i, (run.verify i).isBusy = true →
    ∃ result, run.copy i = .done result ∧ result.success = true
  results : ∀ i result, run.verify i = .done result → result.IsChained

/-- The results that a run returns, once every item is done. -/
structure ArchiveRun.Returns (run : ArchiveRun σ δ) (results : List ArchiveResult) : Prop where
  length_eq : results.length = run.items.length
  done : ∀ i result, results[i]? = some result → run.verify i = .done result

variable {archive : σ} {sha256 : List UInt8 → δ}
  {named : Location σ → ObjectHead → List UInt8} {objects objects' : Objects σ}
  {run run' : ArchiveRun σ δ} {item : Str × Str} {copied : CopyResult}

theorem mergedResult_isChained (copied : CopyResult) : (mergedResult copied).IsChained :=
  ⟨fun h ↦ absurd h Bool.false_ne_true, fun h ↦ absurd h Bool.false_ne_true,
    fun h ↦ absurd h Bool.false_ne_true⟩

theorem deletedResult_isChained (source : ObjectHead) (success : Bool) (error : Option Str)
    (hcopied : copied.success = true) :
    (deletedResult copied source success error).IsChained :=
  ⟨fun _ ↦ rfl, fun _ ↦ rfl, fun _ ↦ hcopied⟩

theorem DeleteOne.isChained [DecidableEq σ] {source : ObjectHead} {l : Location σ}
    {result : ArchiveResult} (h : DeleteOne copied source l objects objects' result)
    (hcopied : copied.success = true) : result.IsChained := by
  cases h with
  | deleted => exact deletedResult_isChained source true none hcopied
  | refused => exact deletedResult_isChained source false _ hcopied
  | lost => exact deletedResult_isChained source false _ hcopied

theorem VerifyOne.chained {status status' : VerifyStatus δ}
    (h : VerifyOne archive sha256 named objects run item copied status status')
    (hbusy : status.isBusy = true → copied.success = true) :
    (status'.isBusy = true → copied.success = true) ∧
      ∀ result, status' = .done result → result.IsChained := by
  cases h with
  | notCopied =>
      refine ⟨fun h ↦ absurd h Bool.false_ne_true, ?_⟩
      rintro result ⟨rfl⟩
      exact mergedResult_isChained copied
  | headSource success => exact ⟨fun _ ↦ success, fun _ h ↦ nomatch h⟩
  | headArchive => exact ⟨fun _ ↦ hbusy rfl, fun _ h ↦ nomatch h⟩
  | readSource => exact ⟨fun _ ↦ hbusy rfl, fun _ h ↦ nomatch h⟩
  | readArchive => exact ⟨fun _ ↦ hbusy rfl, fun _ h ↦ nomatch h⟩
  | headAgain => exact ⟨fun _ ↦ hbusy rfl, fun _ h ↦ nomatch h⟩
  | fails =>
      refine ⟨fun h ↦ absurd h Bool.false_ne_true, ?_⟩
      rintro result ⟨rfl⟩
      obtain ⟨hattempted, hverified, hcopied⟩ := mergedResult_isChained copied
      exact ⟨hattempted, hverified, hcopied⟩

theorem ArchiveRun.Chained.update (h : run.Chained) (hphase : run.phase = .verifying) {i : ℕ}
    (hcopy : run.copy i = .done copied) {status : VerifyStatus δ}
    (hbusy : status.isBusy = true → copied.success = true)
    (hresult : ∀ result, status = .done result → result.IsChained) :
    { run with verify := Function.update run.verify i status }.Chained := by
  refine ⟨fun _ _ ↦ hphase, ?_, ?_⟩
  · intro j hj
    by_cases hji : j = i
    · subst hji
      change (Function.update run.verify j status j).isBusy = true at hj
      rw [Function.update_self] at hj
      exact ⟨copied, hcopy, hbusy hj⟩
    · change (Function.update run.verify i status j).isBusy = true at hj
      rw [Function.update_of_ne hji] at hj
      exact h.copied j hj
  · intro j result hj
    change Function.update run.verify i status j = .done result at hj
    by_cases hji : j = i
    · subst hji
      rw [Function.update_self] at hj
      exact hresult result hj
    · rw [Function.update_of_ne hji] at hj
      exact h.results j result hj

theorem ArchiveRun.Chained.success (h : run.Chained) {i : ℕ} (hcopy : run.copy i = .done copied)
    (hbusy : (run.verify i).isBusy = true) : copied.success = true := by
  obtain ⟨result, hresult, hsuccess⟩ := h.copied i hbusy
  obtain rfl : result = copied := by
    rw [hcopy] at hresult
    exact (CopyStatus.done.inj hresult).symm
  exact hsuccess

theorem ArchiveRun.start_chained (items : List (Str × Str)) (source : σ)
    (bucketErrors : Str → Option Str) :
    (start items source bucketErrors : ArchiveRun σ δ).Chained :=
  ⟨fun _ h ↦ absurd h Bool.false_ne_true, fun _ h ↦ absurd h Bool.false_ne_true,
    fun _ _ h ↦ nomatch h⟩

variable [DecidableEq σ]

/-- A step with any outcome of its calls: the storage may hold anything at each. -/
def AnyStep (archive : σ) (sha256 : List UInt8 → δ) (run run' : ArchiveRun σ δ) : Prop :=
  ∃ objects objects' named, RunStep archive sha256 named objects run objects' run'

theorem RunStep.chained (hstep : RunStep archive sha256 named objects run objects' run')
    (h : run.Chained) : run'.Chained := by
  cases hstep with
  | begins phase =>
      refine ⟨fun i hi ↦ ?_, h.copied, h.results⟩
      exact absurd (phase.symm.trans (h.verifying i hi)) (by decide)
  | copies phase =>
      refine ⟨h.verifying, fun i hi ↦ ?_, h.results⟩
      exact absurd (phase.symm.trans (h.verifying i hi)) (by decide)
  | verifies => exact ⟨fun _ _ ↦ rfl, h.copied, h.results⟩
  | verify phase at_item copy step =>
      obtain ⟨hbusy, hresult⟩ := step.chained (h.success copy)
      exact h.update phase copy hbusy hresult
  | delete phase at_item copy approved request =>
      have hsuccess := h.success copy (congrArg VerifyStatus.isBusy approved)
      have hchained := request.isChained hsuccess
      apply h.update phase copy
      · exact fun hdone ↦ absurd hdone Bool.false_ne_true
      · rintro result ⟨rfl⟩
        exact hchained

theorem ArchiveRun.chained_of_reachable
    (hrun : Relation.ReflTransGen (AnyStep archive sha256) run run') (h : run.Chained) :
    run'.Chained ∧ run'.items = run.items := by
  induction hrun with
  | refl => exact ⟨h, rfl⟩
  | tail _ hstep ih =>
      obtain ⟨objects, objects', named, hstep⟩ := hstep
      exact ⟨hstep.chained ih.1, hstep.items_eq.1.trans ih.2⟩

end Runs

/-! ## The sizes -/

inductive ArchiveClass where
  | deleted
  | archivedNotDeleted
  | copyFailed
  deriving DecidableEq

structure DeleteItem where
  bucket : Str
  key : Str
  path : Option Str
  sizeMb : Cell

/-- A row that a request leaves out, with what it says of it. -/
structure ExcludedItem where
  bucket : Cell
  key : Cell
  destinationUrl : Cell
  status : Cell
  reason : Cell
  error : Cell
  sizeMb : Cell

@[ext] structure SizeGroup where
  count : ℕ
  sizeGb : ℚ
  unknownSizeCount : ℕ
  estimatedSizeCount : ℕ

namespace SizeGroup

def empty : SizeGroup := ⟨0, 0, 0, 0⟩

instance : Add SizeGroup where
  add g h := ⟨g.count + h.count, g.sizeGb + h.sizeGb, g.unknownSizeCount + h.unknownSizeCount,
    g.estimatedSizeCount + h.estimatedSizeCount⟩

@[simp] theorem count_add (g h : SizeGroup) : (g + h).count = g.count + h.count := rfl

@[simp] theorem sizeGb_add (g h : SizeGroup) : (g + h).sizeGb = g.sizeGb + h.sizeGb := rfl

@[simp] theorem unknownSizeCount_add (g h : SizeGroup) :
    (g + h).unknownSizeCount = g.unknownSizeCount + h.unknownSizeCount := rfl

@[simp] theorem estimatedSizeCount_add (g h : SizeGroup) :
    (g + h).estimatedSizeCount = g.estimatedSizeCount + h.estimatedSizeCount := rfl

protected theorem add_comm (g h : SizeGroup) : g + h = h + g := by
  ext
  · exact Nat.add_comm g.count h.count
  · exact Rat.add_comm g.sizeGb h.sizeGb
  · exact Nat.add_comm g.unknownSizeCount h.unknownSizeCount
  · exact Nat.add_comm g.estimatedSizeCount h.estimatedSizeCount

protected theorem add_assoc (g h k : SizeGroup) : g + h + k = g + (h + k) := by
  ext
  · exact Nat.add_assoc g.count h.count k.count
  · exact Rat.add_assoc g.sizeGb h.sizeGb k.sizeGb
  · exact Nat.add_assoc g.unknownSizeCount h.unknownSizeCount k.unknownSizeCount
  · exact Nat.add_assoc g.estimatedSizeCount h.estimatedSizeCount k.estimatedSizeCount

instance : Std.Commutative (α := SizeGroup) (· + ·) := ⟨SizeGroup.add_comm⟩

instance : Std.Associative (α := SizeGroup) (· + ·) := ⟨SizeGroup.add_assoc⟩

end SizeGroup

section Sizes

/- `float` is the value of a text, where it has a finite one. -/
variable (float : Str → Option ℚ)

/-- The size of an object counts as estimated where only the request tells it. -/
def addSize (group : SizeGroup) (sizeBytes : Option ℕ) (sizeMb : Cell) : SizeGroup :=
  let group := { group with count := group.count + 1 }
  let estimated := sizeBytes.isNone
  let raw := (sizeBytes.map fun n ↦ (Nat.repr n).toList).getD sizeMb.printed
  match float (raw.map fun c ↦ if c = ',' then '.' else c) with
  | none => { group with unknownSizeCount := group.unknownSizeCount + 1 }
  | some size =>
      if size < 0 then { group with unknownSizeCount := group.unknownSizeCount + 1 }
      else { group with
        sizeGb := group.sizeGb + size / (if estimated then 1024 else 1024 ^ 3)
        estimatedSizeCount := group.estimatedSizeCount + if estimated then 1 else 0 }

structure SizeTotals where
  total : SizeGroup
  classes : ArchiveClass → SizeGroup
  excluded : SizeGroup

/-- The test of the size summary. -/
def ArchiveResult.sizeClass (result : ArchiveResult) : ArchiveClass :=
  if result.deleteSuccess then .deleted
  else if result.copySuccess then .archivedNotDeleted
  else .copyFailed

/-- The size in the request for the object, the last one of several. -/
def requestedSize (requested : List DeleteItem) (result : ArchiveResult) : Cell :=
  ((requested.reverse.find? fun r ↦
    decide ((r.bucket, r.key) = (result.bucket, result.key))).map DeleteItem.sizeMb).getD .blank

def addResult (requested : List DeleteItem) (totals : SizeTotals) (result : ArchiveResult) :
    SizeTotals :=
  let sizeMb := requestedSize requested result
  let group := addSize float (totals.classes result.sizeClass) result.sizeBytes sizeMb
  { totals with
    classes := Function.update totals.classes result.sizeClass group
    total := addSize float totals.total result.sizeBytes sizeMb }

def addExcluded (totals : SizeTotals) (row : ExcludedItem) : SizeTotals :=
  { totals with excluded := addSize float totals.excluded none row.sizeMb }

def archiveSizeSummary (results : List ArchiveResult) (requested : List DeleteItem)
    (excluded : List ExcludedItem) : SizeTotals :=
  excluded.foldl (addExcluded float)
    (results.foldl (addResult float requested) ⟨.empty, fun _ ↦ .empty, .empty⟩)

theorem addSize_eq_add (group : SizeGroup) (sizeBytes : Option ℕ) (sizeMb : Cell) :
    addSize float group sizeBytes sizeMb = group + addSize float .empty sizeBytes sizeMb := by
  unfold addSize
  dsimp only
  split
  · ext <;> simp [SizeGroup.empty]
  · split_ifs <;> ext <;> simp [SizeGroup.empty]

theorem count_addSize (group : SizeGroup) (sizeBytes : Option ℕ) (sizeMb : Cell) :
    (addSize float group sizeBytes sizeMb).count = group.count + 1 := by
  unfold addSize
  dsimp only
  split
  · rfl
  · split_ifs <;> rfl

/-- The total is the sum over the classes. -/
def SizeTotals.IsSummed (totals : SizeTotals) : Prop :=
  totals.total = totals.classes .deleted + totals.classes .archivedNotDeleted +
    totals.classes .copyFailed

theorem addResult_isSummed {float : Str → Option ℚ} {totals : SizeTotals}
    (requested : List DeleteItem) (result : ArchiveResult) (h : totals.IsSummed) :
    (addResult float requested totals result).IsSummed := by
  simp only [SizeTotals.IsSummed, addResult] at h ⊢
  rw [addSize_eq_add, addSize_eq_add float (totals.classes result.sizeClass), h]
  cases result.sizeClass <;> simp only [Function.update_self, ne_eq, reduceCtorEq,
    not_false_eq_true, Function.update_of_ne] <;> ac_rfl

theorem foldl_addResult_isSummed {float : Str → Option ℚ} {totals : SizeTotals}
    (requested : List DeleteItem) (results : List ArchiveResult) (h : totals.IsSummed) :
    (results.foldl (addResult float requested) totals).IsSummed := by
  induction results generalizing totals with
  | nil => exact h
  | cons result results ih => exact ih (addResult_isSummed requested result h)

theorem count_foldl_addResult (requested : List DeleteItem) (totals : SizeTotals)
    (results : List ArchiveResult) (c : ArchiveClass) :
    ((results.foldl (addResult float requested) totals).classes c).count =
      (totals.classes c).count + results.countP fun r ↦ decide (r.sizeClass = c) := by
  induction results generalizing totals with
  | nil => rfl
  | cons result results ih =>
      rw [List.foldl_cons, ih, List.countP_cons]
      by_cases hc : result.sizeClass = c
      · subst hc
        simp only [addResult, Function.update_self, count_addSize, decide_true, if_true]
        omega
      · simp [addResult, hc, Function.update_of_ne (Ne.symm hc)]

theorem foldl_addExcluded (totals : SizeTotals) (excluded : List ExcludedItem) :
    (excluded.foldl (addExcluded float) totals).total = totals.total ∧
      (excluded.foldl (addExcluded float) totals).classes = totals.classes := by
  induction excluded generalizing totals with
  | nil => exact ⟨rfl, rfl⟩
  | cons row excluded ih => exact ih (addExcluded float totals row)

theorem archiveSizeSummary_isSummed (results : List ArchiveResult) (requested : List DeleteItem)
    (excluded : List ExcludedItem) :
    (archiveSizeSummary float results requested excluded).IsSummed := by
  obtain ⟨htotal, hclasses⟩ := foldl_addExcluded float
    (results.foldl (addResult float requested) ⟨.empty, fun _ ↦ .empty, .empty⟩) excluded
  rw [SizeTotals.IsSummed, archiveSizeSummary, htotal, hclasses]
  apply foldl_addResult_isSummed
  rw [SizeTotals.IsSummed]
  ext <;> simp [SizeGroup.empty]

theorem count_archiveSizeSummary (results : List ArchiveResult) (requested : List DeleteItem)
    (excluded : List ExcludedItem) (c : ArchiveClass) :
    ((archiveSizeSummary float results requested excluded).classes c).count =
      results.countP fun r ↦ decide (r.sizeClass = c) := by
  rw [archiveSizeSummary, (foldl_addExcluded float _ excluded).2, count_foldl_addResult]
  exact Nat.zero_add _

end Sizes

/-! ## The counts of the response -/

structure ArchiveDeletionCounts where
  deletedCount : ℕ
  copyFailedCount : ℕ
  archivedNotDeletedCount : ℕ
  publicAccessWarningCount : ℕ
  deriving DecidableEq

/-- The archive is private, and no visibility is set that could fail. -/
def ArchiveResult.publicAccessError (_ : ArchiveResult) : Option Str := none

/-- The tests of the counts, one for each class. -/
def ArchiveResult.isCounted (result : ArchiveResult) : ArchiveClass → Bool
  | .deleted => result.deleteSuccess
  | .copyFailed => !result.copySuccess
  | .archivedNotDeleted => result.copySuccess && !result.deleteSuccess

def archiveDeletionCounts (results : List ArchiveResult) : ArchiveDeletionCounts where
  deletedCount := results.countP (·.isCounted .deleted)
  copyFailedCount := results.countP (·.isCounted .copyFailed)
  archivedNotDeletedCount := results.countP (·.isCounted .archivedNotDeleted)
  publicAccessWarningCount := results.countP (·.publicAccessError.isSome)

def ArchiveDeletionCounts.ofClass (counts : ArchiveDeletionCounts) : ArchiveClass → ℕ
  | .deleted => counts.deletedCount
  | .copyFailed => counts.copyFailedCount
  | .archivedNotDeleted => counts.archivedNotDeletedCount

/-! ## The report -/

def archiveReportHeaders : List Str :=
  ["Bucket", "Key", "Path", "Size (MB)", "Archive URL", "Copy Status", "Copy Error",
    "Delete Status", "Delete Error", "Public Access Status", "Public Access Error",
    "Archive URL Expires At (UTC)", "Archive URL Error", "Archive Verified",
    "Verification Error"].map String.toList

/-- The test of the report. -/
def ArchiveResult.reportClass (result : ArchiveResult) : ArchiveClass :=
  if result.copySuccess && result.deleteSuccess then .deleted
  else if result.copySuccess then .archivedNotDeleted
  else .copyFailed

/-- The link to the archive copy, when it expires, and why there is none. -/
def archiveLinkCells (presign : Str → Str → Except Str (Str × Str)) (result : ArchiveResult) :
    Cell × Cell × Cell :=
  if result.copySuccess && result.archiveBucket != [] && result.archiveKey != [] then
    match presign result.archiveBucket result.archiveKey with
    | .ok (url, expiry) => (.text url, .text expiry, .text [])
    | .error e => (.text [], .text [], .text e)
  else (.text [], .text [], .text [])

def archiveReportRow (presign : Str → Str → Except Str (Str × Str)) (request : Option DeleteItem)
    (result : ArchiveResult) : List Cell :=
  let (url, expiry, urlError) := archiveLinkCells presign result
  [.text (if result.bucket = [] then (request.map DeleteItem.bucket).getD [] else result.bucket),
    .text (if result.key = [] then (request.map DeleteItem.key).getD [] else result.key),
    .ofOption (request.bind DeleteItem.path), (request.map DeleteItem.sizeMb).getD .blank, url,
    .text (if !result.copySuccess then "Failed".toList
      else if result.copySkipped then "Already archived".toList else "Copied".toList),
    .ofOption result.copyError,
    .text (if result.deleteSuccess then "Deleted".toList
      else if result.deleteAttempted then "Failed".toList else "Not attempted".toList),
    .ofOption result.deleteError, .text "Private (presigned URL)".toList,
    .ofOption result.publicAccessError, expiry, urlError,
    .text (if result.archiveVerified then "Yes".toList else "No".toList),
    .ofOption result.verificationError]

/-- The rows of the three sheets, filled result by result. -/
def archiveReportRows (presign : Str → Str → Except Str (Str × Str))
    (requested : List DeleteItem) (results : List ArchiveResult) :
    ArchiveClass → List (List Cell) :=
  results.zipIdx.foldl (fun rows p ↦
    Function.update rows p.1.reportClass
      (rows p.1.reportClass ++ [archiveReportRow presign requested[p.2]? p.1])) fun _ ↦ []

/-- `value or ""` -/
def Cell.orEmpty (value : Cell) : Cell := if value.truthy then value else .text []

def excludedItemRow (item : ExcludedItem) : List Cell :=
  [item.bucket.orEmpty, item.key.orEmpty, item.destinationUrl.orEmpty, item.status.orEmpty,
    if item.reason.truthy then item.reason else item.error.orEmpty]

/-- `gb` writes a size. -/
def sizeGroupRow (gb : ℚ → Cell) (label : String) (group : SizeGroup) : List Cell :=
  let number n := Cell.number (Nat.repr n).toList (n == 0)
  [.text label.toList, number group.count, gb group.sizeGb, number group.unknownSizeCount,
    number group.estimatedSizeCount]

def archiveSummaryRows (gb : ℚ → Cell) (sizes : SizeTotals) : List (List Cell) :=
  [["Status", "Count", "Size (GB)", "Unknown size files", "Estimated size files"].map
      fun s ↦ .text s.toList,
    sizeGroupRow gb "Total processed" sizes.total,
    sizeGroupRow gb "Archived & Deleted" (sizes.classes .deleted),
    sizeGroupRow gb "Archived, Not Deleted" (sizes.classes .archivedNotDeleted),
    sizeGroupRow gb "Copy Failed (Not Deleted)" (sizes.classes .copyFailed),
    sizeGroupRow gb "Excluded" sizes.excluded,
    ["Size basis", "GB uses 1024 MB (GiB). Metadata bytes when available; otherwise " ++
      "estimated from report MB. Unknown sizes excluded from totals."].map
        fun s ↦ .text s.toList,
    ["Archive links", "Presigned GET URLs valid for 7 days. Anyone with the link can " ++
      "download until expiry."].map fun s ↦ .text s.toList]

def ArchiveClass.sheetName : ArchiveClass → Str
  | deleted => "Archived & Deleted".toList
  | archivedNotDeleted => "Archived, Not Deleted".toList
  | copyFailed => "Copy Failed (Not Deleted)".toList

def generateArchiveDeletionReport (float : Str → Option ℚ) (gb : ℚ → Cell)
    (presign : Str → Str → Except Str (Str × Str)) (requested : List DeleteItem)
    (results : List ArchiveResult) (excluded : List ExcludedItem) : Workbook :=
  let header := archiveReportHeaders.map Cell.text
  let sheet c := (ArchiveClass.sheetName c, header :: archiveReportRows presign requested results c)
  [("Summary".toList, archiveSummaryRows gb (archiveSizeSummary float results requested excluded)),
    sheet .deleted, sheet .archivedNotDeleted, sheet .copyFailed,
    ("Excluded".toList,
      ["Bucket", "Key", "Destination URL", "Status", "Reason"].map (fun s ↦ .text s.toList) ::
        excluded.map excludedItemRow)]

theorem foldl_update_append {α κ ρ : Type*} [DecidableEq κ] (key : α → κ) (row : α → ρ)
    (l : List α) (rows : κ → List ρ) (k : κ) :
    l.foldl (fun rows a ↦ Function.update rows (key a) (rows (key a) ++ [row a])) rows k =
      rows k ++ (l.filter fun a ↦ decide (key a = k)).map row := by
  induction l generalizing rows with
  | nil => simp
  | cons a l ih =>
      rw [List.foldl_cons, ih]
      by_cases hk : key a = k
      · subst hk
        simp
      · simp [hk, Function.update_of_ne (Ne.symm hk)]

theorem archiveReportRows_eq (presign : Str → Str → Except Str (Str × Str))
    (requested : List DeleteItem) (results : List ArchiveResult) (c : ArchiveClass) :
    archiveReportRows presign requested results c =
      (results.zipIdx.filter fun p ↦ decide (p.1.reportClass = c)).map fun p ↦
        archiveReportRow presign requested[p.2]? p.1 :=
  foldl_update_append (fun p : ArchiveResult × ℕ ↦ p.1.reportClass) _ results.zipIdx _ c

/-! ## One class for each result -/

/-- The three tests put the result in the same class. -/
structure ArchiveResult.IsClassified (result : ArchiveResult) : Prop where
  counted : ∀ c, result.isCounted c = decide (result.sizeClass = c)
  reported : result.reportClass = result.sizeClass

theorem ArchiveResult.IsChained.isClassified {result : ArchiveResult} (h : result.IsChained) :
    result.IsClassified := by
  have hcopied : result.deleteSuccess = true → result.copySuccess = true :=
    fun hdeleted ↦ h.copied (h.verified (h.attempted hdeleted))
  cases hdelete : result.deleteSuccess with
  | true =>
      have hcopy := hcopied hdelete
      refine ⟨?_, ?_⟩
      · rintro (_ | _ | _) <;> simp [isCounted, sizeClass, hdelete, hcopy]
      · simp [reportClass, sizeClass, hdelete, hcopy]
  | false =>
      cases hcopy : result.copySuccess <;> refine ⟨?_, ?_⟩
      · rintro (_ | _ | _) <;> simp [isCounted, sizeClass, hdelete, hcopy]
      · simp [reportClass, sizeClass, hdelete, hcopy]
      · rintro (_ | _ | _) <;> simp [isCounted, sizeClass, hdelete, hcopy]
      · simp [reportClass, sizeClass, hdelete, hcopy]

theorem ofClass_archiveDeletionCounts (results : List ArchiveResult) (c : ArchiveClass) :
    (archiveDeletionCounts results).ofClass c = results.countP (·.isCounted c) := by
  cases c <;> rfl

theorem ofClass_eq {results : List ArchiveResult} (h : ∀ r ∈ results, r.IsClassified)
    (c : ArchiveClass) :
    (archiveDeletionCounts results).ofClass c =
      results.countP fun r ↦ decide (r.sizeClass = c) := by
  rw [ofClass_archiveDeletionCounts]
  apply List.countP_congr
  intro r hr
  rw [(h r hr).counted c]

theorem countP_sizeClass (results : List ArchiveResult) :
    (results.countP fun r ↦ decide (r.sizeClass = .deleted)) +
        (results.countP fun r ↦ decide (r.sizeClass = .archivedNotDeleted)) +
      (results.countP fun r ↦ decide (r.sizeClass = .copyFailed)) = results.length := by
  induction results with
  | nil => rfl
  | cons result results ih =>
      simp only [List.countP_cons, List.length_cons]
      cases result.sizeClass <;> simp <;> omega

/-- What the report has of each class, where the tests agree. -/
theorem archiveReportRows_of_classified {results : List ArchiveResult}
    (h : ∀ r ∈ results, r.IsClassified) (presign : Str → Str → Except Str (Str × Str))
    (requested : List DeleteItem) (c : ArchiveClass) :
    archiveReportRows presign requested results c =
      (results.zipIdx.filter fun p ↦ decide (p.1.sizeClass = c)).map fun p ↦
        archiveReportRow presign requested[p.2]? p.1 := by
  rw [archiveReportRows_eq]
  congr 1
  apply List.filter_congr
  intro p hp
  rw [(h p.1 (List.fst_mem_of_mem_zipIdx hp)).reported]

/-- Whatever the calls to the storage come to, the tallies put each result in one class,
and account for every item. -/
theorem archiveTallies_agree {σ δ : Type*} [DecidableEq σ] {archive : σ}
    {sha256 : List UInt8 → δ} {items : List (Str × Str)} {source : σ}
    {bucketErrors : Str → Option Str} {run : ArchiveRun σ δ} {results : List ArchiveResult}
    (hrun : Relation.ReflTransGen (AnyStep archive sha256)
      (.start items source bucketErrors) run) (hreturns : run.Returns results) :
    (∀ result ∈ results, result.IsChained ∧ result.IsClassified) ∧
      (archiveDeletionCounts results).deletedCount +
          (archiveDeletionCounts results).archivedNotDeletedCount +
        (archiveDeletionCounts results).copyFailedCount = items.length ∧
      ∀ (float : Str → Option ℚ) (gb : ℚ → Cell) (presign : Str → Str → Except Str (Str × Str))
        (requested : List DeleteItem) (excluded : List ExcludedItem),
        (archiveSizeSummary float results requested excluded).IsSummed ∧
          ∀ c, ((archiveSizeSummary float results requested excluded).classes c).count =
              (archiveDeletionCounts results).ofClass c ∧
            (c.sheetName, archiveReportHeaders.map .text ::
                (results.zipIdx.filter fun p ↦ decide (p.1.sizeClass = c)).map fun p ↦
                  archiveReportRow presign requested[p.2]? p.1) ∈
              generateArchiveDeletionReport float gb presign requested results excluded := by
  obtain ⟨hchained, hitems⟩ := ArchiveRun.chained_of_reachable hrun
    (ArchiveRun.start_chained items source bucketErrors)
  have hresults : ∀ result ∈ results, result.IsChained := by
    intro result hresult
    obtain ⟨i, hi⟩ := List.mem_iff_getElem?.mp hresult
    exact hchained.results i result (hreturns.done i result hi)
  have hclassified : ∀ result ∈ results, result.IsClassified :=
    fun result hresult ↦ (hresults result hresult).isClassified
  refine ⟨fun result hresult ↦ ⟨hresults result hresult, hclassified result hresult⟩, ?_, ?_⟩
  · have hlength : results.length = items.length :=
      hreturns.length_eq.trans (congrArg List.length hitems)
    rw [← hlength, ← countP_sizeClass results, ← ofClass_eq hclassified, ← ofClass_eq hclassified,
      ← ofClass_eq hclassified]
    rfl
  · intro float gb presign requested excluded
    refine ⟨archiveSizeSummary_isSummed float results requested excluded, fun c ↦ ⟨?_, ?_⟩⟩
    · rw [count_archiveSizeSummary, ofClass_eq hclassified]
    · rw [← archiveReportRows_of_classified hclassified]
      cases c <;> simp [generateArchiveDeletionReport]

/-- A file whose archive copy cannot be verified. -/
def keptItem : Str × Str := ("school".toList, "kept".toList)

/-- A file that cannot be copied. -/
def missedItem : Str × Str := ("school".toList, "missed".toList)

def classesStart : ArchiveRun Str (List UInt8) :=
  .start [schoolItem, keptItem, missedItem] "do".toList fun _ ↦ none

def keptResult : ArchiveResult :=
  { mergedResult ((classesStart.call "wasabi".toList).copied keptItem) with
    verificationError := some ("Archive verification failed (".toList ++ ['?'] ++
      "); source retained".toList)
    sizeBytes := none }

def missedResult : ArchiveResult :=
  mergedResult ((classesStart.call "wasabi".toList).failed missedItem ['?'])

def classResults : List ArchiveResult := [schoolDeleted, keptResult, missedResult]

/-- The calls for the three files interleave. -/
theorem exists_run_of_classes :
    ∃ run : ArchiveRun Str (List UInt8),
      Relation.ReflTransGen (AnyStep "wasabi".toList id) classesStart run ∧
      run.Returns classResults := by
  have haccepted : ∀ item ∈ [schoolItem, keptItem, missedItem], item.1 ≠ archiveBucketName := by
    decide
  have hupload : IsUpload schoolObject schoolObject := ⟨rfl, fun h ↦ absurd rfl h⟩
  let there : Objects Str := fun _ ↦ some schoolObject
  let absent : Objects Str := fun _ ↦ none
  let named : Location Str → ObjectHead → List UInt8 := fun _ _ ↦ [1]
  have hfails : ∀ {run}, VerifyOne "wasabi".toList id named there run keptItem
      ((classesStart.call "wasabi".toList).copied keptItem) .waiting (.done keptResult) :=
    .fails rfl rfl
  refine ⟨?run, ?reached, ?returns⟩
  case reached =>
    refine .head ⟨absent, absent, named, .begins rfl haccepted⟩ ?_
    refine .head ⟨absent, _, named, .copies (i := 0) rfl rfl (.notFound rfl rfl rfl)⟩ ?_
    refine .head ⟨absent, _, named, .copies (i := 1) rfl rfl (.notFound rfl rfl rfl)⟩ ?_
    refine .head ⟨there, _, named, .copies (i := 1) rfl rfl (.get rfl)⟩ ?_
    refine .head ⟨there, _, named, .copies (i := 0) rfl rfl (.get rfl)⟩ ?_
    refine .head ⟨there, _, named, .copies (i := 2) rfl rfl (.headFails (e := ['?']) rfl rfl)⟩ ?_
    refine .head ⟨there, _, named, .copies (i := 0) rfl rfl (.upload hupload)⟩ ?_
    refine .head ⟨there, _, named, .copies (i := 1) rfl rfl (.upload hupload)⟩ ?_
    refine .head ⟨there, there, named, .verifies rfl ?_⟩ ?_
    · rintro (_ | _ | _ | i) hi
      · exact ⟨_, rfl⟩
      · exact ⟨_, rfl⟩
      · exact ⟨_, rfl⟩
      · exact absurd hi (Nat.not_lt.mpr (Nat.le_add_left 3 i))
    refine .head ⟨there, there, named, .verify (i := 0) rfl rfl rfl (.headSource rfl rfl)⟩ ?_
    refine .head ⟨there, there, named, .verify (i := 0) rfl rfl rfl (.headArchive rfl rfl)⟩ ?_
    refine .head ⟨there, there, named, .verify (i := 1) rfl rfl rfl hfails⟩ ?_
    refine .head ⟨there, there, named, .verify (i := 0) rfl rfl rfl (.readSource rfl rfl rfl)⟩ ?_
    refine .head ⟨there, there, named, .verify (i := 2) rfl rfl rfl (.notCopied rfl)⟩ ?_
    refine .head ⟨there, there, named, .verify (i := 0) rfl rfl rfl (.readArchive rfl rfl rfl)⟩ ?_
    refine .head ⟨there, there, named, .verify (i := 0) rfl rfl rfl (.headAgain rfl rfl)⟩ ?_
    refine .head ⟨there, _, named, .delete (i := 0) rfl rfl rfl rfl .deleted⟩ ?_
    exact .refl
  case returns =>
    refine ⟨rfl, ?_⟩
    rintro (_ | _ | _ | i) result hi
    · exact congrArg VerifyStatus.done (Option.some.inj hi)
    · exact congrArg VerifyStatus.done (Option.some.inj hi)
    · exact congrArg VerifyStatus.done (Option.some.inj hi)
    · exact nomatch hi

/-- One file is deleted, one archived and kept, and one not copied. -/
theorem archiveTallies_agree_school :
    archiveDeletionCounts classResults = ⟨1, 1, 1, 0⟩ ∧
    (∀ result ∈ classResults, result.IsChained ∧ result.IsClassified) ∧
      (archiveDeletionCounts classResults).deletedCount +
          (archiveDeletionCounts classResults).archivedNotDeletedCount +
        (archiveDeletionCounts classResults).copyFailedCount = 3 := by
  obtain ⟨run, hrun, hreturns⟩ := exists_run_of_classes
  have hagree := archiveTallies_agree hrun hreturns
  exact ⟨by decide, hagree.1, hagree.2.1⟩

end StorageReconciler
