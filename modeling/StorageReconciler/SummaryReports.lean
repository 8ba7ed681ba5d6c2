import Mathlib.Data.List.Perm.Subperm
import StorageReconciler.Fetching
import StorageReconciler.Foundations.Workers
import StorageReconciler.Sheets

/-!
# Reports of a storage summary

The buckets are scanned by a pool of workers.  Whenever one is done, its summary is
added to a list that all callbacks share, and the report is written anew.  The totals
are taken from the list before its rows are, and the file is replaced when both are
written: what a report shows depends on when each of this happens.
-/

namespace StorageReconciler

open Strings Workers

structure BucketSummary where
  bucket : Str
  objectCount : ℕ
  totalSize : ℕ
  error : Option Str
  deriving DecidableEq

structure SummaryTotals where
  bucketCount : ℕ
  objectCount : ℕ
  totalSize : ℕ
  deriving DecidableEq

structure StorageSummary extends SummaryTotals where
  buckets : List BucketSummary
  deriving DecidableEq

def totalsOf (buckets : List BucketSummary) : SummaryTotals where
  bucketCount := buckets.length
  objectCount := (buckets.map BucketSummary.objectCount).sum
  totalSize := (buckets.map BucketSummary.totalSize).sum

def summaryOf (buckets : List BucketSummary) : StorageSummary := ⟨totalsOf buckets, buckets⟩

def BucketSummary.isReportable (b : BucketSummary) : Bool :=
  !b.error.any fun e ↦ e != [] && isRegionMismatchError e

/-! ## The report -/

section Report

variable (formatBytes : ℕ → Str)

def bucketRow (b : BucketSummary) : List Cell :=
  [.text b.bucket, countCell b.objectCount, countCell b.totalSize,
    .text (formatBytes b.totalSize), .ofOption b.error]

def totalRow (totals : SummaryTotals) : List Cell :=
  [.text "TOTAL".toList, countCell totals.objectCount, countCell totals.totalSize,
    .text (formatBytes totals.totalSize), .text []]

def generateStorageReport (summary : StorageSummary) : Workbook :=
  [("Storage Summary".toList,
    ["Bucket", "Object Count", "Total Size (Bytes)", "Total Size", "Error"].map
        (fun name ↦ Cell.text name.toList) ::
      summary.buckets.map (bucketRow formatBytes) ++
        [[], totalRow formatBytes summary.toSummaryTotals])]

end Report

/-! ## The scan -/

/-- The buckets, and what the scan of each yields. -/
structure SummaryJob where
  targetBuckets : List Str
  concurrency : ℕ
  scan : ℕ → Except Str (List StorageObject)
  formatBytes : ℕ → Str

/-- What the workers share. -/
structure SummaryState where
  started : ℕ
  active : ℕ
  summaries : ℕ → Option BucketSummary
  completedBuckets : List BucketSummary
  report : Option Workbook

/-- How far `scan_one` is: queued, scanning, with its summary stored, the summary added
to the shared list, the totals taken, the workbook written or moved into place, or done. -/
inductive ScanStatus where
  | queued
  | scanning
  | scanned
  | added
  | totalled (totals : SummaryTotals)
  | written (workbook : Workbook)
  | exported
  | done
  deriving DecidableEq

namespace SummaryJob

variable (job : SummaryJob)

def total : ℕ := job.targetBuckets.length

def workers : ℕ := min job.concurrency job.total

def summary (index : ℕ) : BucketSummary :=
  let bucket := job.targetBuckets.getD index []
  match job.scan index with
  | .ok objects => ⟨bucket, objects.length, (objects.map StorageObject.size).sum, none⟩
  | .error e => ⟨bucket, 0, 0, some e⟩

/-- What of a summary is added to the list. -/
def addition (index : ℕ) : List BucketSummary :=
  if (job.summary index).isReportable then [job.summary index] else []

def generate (totals : SummaryTotals) (buckets : List BucketSummary) : Workbook :=
  generateStorageReport job.formatBytes ⟨totals, buckets⟩

/-- The steps of `scan_one` with its callback.  The buckets are taken up in their order,
while a worker is free. -/
inductive ScanOne : Action SummaryState ScanStatus where
  | start {i : ℕ} {s : SummaryState} (next : s.started = i) (item : i < job.total)
      (free : s.active < job.workers) :
      ScanOne i s .queued { s with started := i + 1, active := s.active + 1 } .scanning
  | scan {i : ℕ} {s : SummaryState} :
      ScanOne i s .scanning
        { s with summaries := Function.update s.summaries i (some (job.summary i)) } .scanned
  | append {i : ℕ} {s : SummaryState} :
      ScanOne i s .scanned
        { s with completedBuckets := s.completedBuckets ++ job.addition i } .added
  | sum {i : ℕ} {s : SummaryState} :
      ScanOne i s .added s (.totalled (totalsOf s.completedBuckets))
  | write {i : ℕ} {s : SummaryState} {totals : SummaryTotals} :
      ScanOne i s (.totalled totals) s (.written (job.generate totals s.completedBuckets))
  | rename {i : ℕ} {s : SummaryState} {workbook : Workbook} :
      ScanOne i s (.written workbook) { s with report := some workbook } .exported
  | leave {i : ℕ} {s : SummaryState} :
      ScanOne i s .exported { s with active := s.active - 1 } .done

abbrev Run := Team SummaryState ScanStatus

def runStart : Run := ⟨⟨0, 0, fun _ ↦ none, [], none⟩, fun _ ↦ .queued⟩

def Reaches : Run → Run → Prop := Relation.ReflTransGen (Step job.ScanOne)

/-- The summary of the `done` event. -/
def finalSummary (s : SummaryState) : StorageSummary :=
  summaryOf (((List.range job.total).filterMap s.summaries).filter BucketSummary.isReportable)

/-- The report that is there at the end lists the buckets of the final summary, and has
its totals. -/
def ReportIsComplete (s : SummaryState) : Prop :=
  ∃ listed : List BucketSummary, listed.Perm (job.finalSummary s).buckets ∧
    s.report = some (job.generate (job.finalSummary s).toSummaryTotals listed)

/-- Whatever the order of the steps, the last report is complete. -/
def LastReportIsComplete : Prop :=
  ∀ p, job.Reaches runStart p → (∀ i < job.total, p.status i = .done) →
    job.ReportIsComplete p.shared

end SummaryJob

/-! ## What has been added -/

namespace ScanStatus

def isScanned : ScanStatus → Bool
  | queued | scanning => false
  | _ => true

def isAdded : ScanStatus → Bool
  | queued | scanning | scanned => false
  | _ => true

/-- Between being added and being shown. -/
def isPending : ScanStatus → Bool
  | added | totalled _ | written _ => true
  | _ => false

def isBusy : ScanStatus → Bool
  | queued | done => false
  | _ => true

end ScanStatus

section Runs

variable {job : SummaryJob} {p p' : SummaryJob.Run} {order : List ℕ}

theorem SummaryJob.addition_eq (job : SummaryJob) (i : ℕ) :
    job.addition i = [job.summary i].filter BucketSummary.isReportable := by
  rw [addition, List.filter_cons, List.filter_nil]

/-- The list has what was added, in this order. -/
structure IsRecorded (job : SummaryJob) (order : List ℕ) (p : SummaryJob.Run) : Prop where
  nodup : order.Nodup
  mem_iff : ∀ i, i ∈ order ↔ (p.status i).isAdded = true
  item : ∀ i, p.status i ≠ .queued → i < job.total
  stored : ∀ i, (p.status i).isScanned = true → p.shared.summaries i = some (job.summary i)
  listed : p.shared.completedBuckets =
    (order.map job.summary).filter BucketSummary.isReportable

theorem isRecorded_runStart (job : SummaryJob) : IsRecorded job [] SummaryJob.runStart where
  nodup := .nil
  mem_iff _ := ⟨fun h ↦ absurd h List.not_mem_nil, fun h ↦ nomatch h⟩
  item _ h := absurd rfl h
  stored _ h := nomatch h
  listed := rfl

theorem IsRecorded.mem_iff_update (h : IsRecorded job order p) {i : ℕ} {t : ScanStatus}
    (hadded : t.isAdded = (p.status i).isAdded) (j : ℕ) :
    j ∈ order ↔ (Function.update p.status i t j).isAdded = true := by
  rw [h.mem_iff]
  by_cases hji : j = i
  · subst hji
    rw [Function.update_self, hadded]
  · rw [Function.update_of_ne hji]

theorem IsRecorded.item_update (h : IsRecorded job order p) {i : ℕ} (hitem : i < job.total)
    (t : ScanStatus) (j : ℕ) (hj : Function.update p.status i t j ≠ .queued) : j < job.total := by
  by_cases hji : j = i
  · exact hji ▸ hitem
  · exact h.item j (by rwa [Function.update_of_ne hji] at hj)

theorem IsRecorded.keep (h : IsRecorded job order p) {i : ℕ} {s : SummaryState} {t : ScanStatus}
    (hitem : i < job.total) (hadded : t.isAdded = (p.status i).isAdded)
    (hscanned : t.isScanned = (p.status i).isScanned)
    (hsummaries : s.summaries = p.shared.summaries)
    (hlist : s.completedBuckets = p.shared.completedBuckets) :
    IsRecorded job order ⟨s, Function.update p.status i t⟩ := by
  refine ⟨h.nodup, h.mem_iff_update hadded, h.item_update hitem t, fun j hj ↦ ?_,
    hlist.trans h.listed⟩
  rw [hsummaries]
  apply h.stored
  by_cases hji : j = i
  · subst hji
    simpa only [Function.update_self, hscanned] using hj
  · simpa only [Function.update_of_ne hji] using hj

theorem IsRecorded.scan (h : IsRecorded job order p) {i : ℕ} (hitem : i < job.total)
    (hstatus : p.status i = .scanning) :
    IsRecorded job order ⟨{ p.shared with
      summaries := Function.update p.shared.summaries i (some (job.summary i)) },
      Function.update p.status i .scanned⟩ := by
  refine ⟨h.nodup, h.mem_iff_update (by rw [hstatus]; rfl), h.item_update hitem .scanned,
    fun j hj ↦ ?_, h.listed⟩
  by_cases hji : j = i
  · subst hji
    simp only [Function.update_self]
  · simp only [Function.update_of_ne hji] at hj ⊢
    exact h.stored j hj

theorem IsRecorded.append (h : IsRecorded job order p) {i : ℕ} (hitem : i < job.total)
    (hstatus : p.status i = .scanned) :
    IsRecorded job (order ++ [i]) ⟨{ p.shared with
      completedBuckets := p.shared.completedBuckets ++ job.addition i },
      Function.update p.status i .added⟩ := by
  have hnew : i ∉ order := fun hmem ↦ by
    rw [h.mem_iff, hstatus] at hmem
    exact nomatch hmem
  refine ⟨?_, fun j ↦ ?_, h.item_update hitem .added, fun j hj ↦ ?_, ?_⟩
  · exact (List.perm_append_singleton i order).nodup_iff.mpr
      (List.nodup_cons.mpr ⟨hnew, h.nodup⟩)
  · rw [List.mem_append, List.mem_singleton, h.mem_iff]
    by_cases hji : j = i
    · subst hji
      simp only [Function.update_self, ScanStatus.isAdded, or_true]
    · simp only [Function.update_of_ne hji, hji, or_false]
  · apply h.stored
    by_cases hji : j = i
    · subst hji
      rw [hstatus]
      rfl
    · simpa only [Function.update_of_ne hji] using hj
  · simp only [h.listed, job.addition_eq, List.map_append, List.filter_append, List.map_cons,
      List.map_nil]

theorem IsRecorded.step (h : IsRecorded job order p) (hstep : Step job.ScanOne p p') :
    ∃ order', IsRecorded job order' p' := by
  cases hstep with
  | @worker i s t hact =>
      generalize hstatus : p.status i = before at hact
      have hitem : before ≠ .queued → i < job.total := fun hne ↦ h.item i (hstatus ▸ hne)
      cases hact with
      | start next item free =>
          exact ⟨order, h.keep item (by rw [hstatus]; rfl) (by rw [hstatus]; rfl) rfl rfl⟩
      | scan => exact ⟨order, h.scan (hitem ScanStatus.noConfusion) hstatus⟩
      | append => exact ⟨order ++ [i], h.append (hitem ScanStatus.noConfusion) hstatus⟩
      | sum =>
          exact ⟨order, h.keep (hitem ScanStatus.noConfusion) (by rw [hstatus]; rfl)
            (by rw [hstatus]; rfl) rfl rfl⟩
      | write =>
          exact ⟨order, h.keep (hitem ScanStatus.noConfusion) (by rw [hstatus]; rfl)
            (by rw [hstatus]; rfl) rfl rfl⟩
      | rename =>
          exact ⟨order, h.keep (hitem ScanStatus.noConfusion) (by rw [hstatus]; rfl)
            (by rw [hstatus]; rfl) rfl rfl⟩
      | leave =>
          exact ⟨order, h.keep (hitem ScanStatus.noConfusion) (by rw [hstatus]; rfl)
            (by rw [hstatus]; rfl) rfl rfl⟩

theorem exists_isRecorded (hrun : job.Reaches SummaryJob.runStart p) :
    ∃ order, IsRecorded job order p := by
  induction hrun with
  | refl => exact ⟨[], isRecorded_runStart job⟩
  | tail _ hstep ih =>
      obtain ⟨order, h⟩ := ih
      exact h.step hstep

/-- At the end, the final summary has the buckets of the list, maybe in another order. -/
theorem IsRecorded.perm_finalSummary (h : IsRecorded job order p)
    (hdone : ∀ i < job.total, p.status i = .done) :
    p.shared.completedBuckets.Perm (job.finalSummary p.shared).buckets := by
  have horder : order.Perm (List.range job.total) := by
    rw [List.perm_ext_iff_of_nodup h.nodup List.nodup_range]
    intro i
    rw [h.mem_iff, List.mem_range]
    constructor
    · intro hadded
      apply h.item
      rintro hqueued
      rw [hqueued] at hadded
      exact nomatch hadded
    · intro hi
      rw [hdone i hi]
      rfl
  have hstored : (List.range job.total).filterMap p.shared.summaries =
      (List.range job.total).map job.summary := by
    rw [← List.filterMap_eq_map]
    apply List.filterMap_congr
    intro i hi
    exact h.stored i (by rw [hdone i (List.mem_range.mp hi)]; rfl)
  rw [h.listed, SummaryJob.finalSummary, hstored]
  exact (horder.map job.summary).filter _

theorem totalsOf_perm {l l' : List BucketSummary} (h : l.Perm l') : totalsOf l = totalsOf l' := by
  rw [totalsOf, totalsOf, h.length_eq, (h.map _).sum_nat, (h.map _).sum_nat]

/-! ## Reports that are up to date -/

/-- The report shows the list as it is. -/
def IsFresh (job : SummaryJob) (s : SummaryState) : Prop :=
  s.report = some (job.generate (totalsOf s.completedBuckets) s.completedBuckets)

theorem IsRecorded.reportIsComplete (h : IsRecorded job order p)
    (hdone : ∀ i < job.total, p.status i = .done) (hfresh : IsFresh job p.shared) :
    job.ReportIsComplete p.shared := by
  have hperm := h.perm_finalSummary hdone
  refine ⟨p.shared.completedBuckets, hperm, hfresh.trans ?_⟩
  rw [totalsOf_perm hperm]
  rfl

/-- What a callback has taken from the list is what it still holds, and someone is about
to show it unless it has been shown. -/
structure IsCurrent (job : SummaryJob) (p : SummaryJob.Run) : Prop where
  totalled : ∀ i totals, p.status i = .totalled totals →
    totals = totalsOf p.shared.completedBuckets
  written : ∀ i workbook, p.status i = .written workbook →
    workbook = job.generate (totalsOf p.shared.completedBuckets) p.shared.completedBuckets
  shown : ∀ i, p.status i = .exported ∨ p.status i = .done →
    IsFresh job p.shared ∨ ∃ j, (p.status j).isPending = true

/-- No bucket that is to be reported is added while a callback is on its way from its
own addition to the report. -/
def IsQuiet (job : SummaryJob) (p : SummaryJob.Run) : Prop :=
  ∀ i j, p.status i = .scanned → (job.summary i).isReportable = true →
    (p.status j).isPending = false

theorem isCurrent_runStart (job : SummaryJob) : IsCurrent job SummaryJob.runStart where
  totalled _ _ h := nomatch h
  written _ _ h := nomatch h
  shown _ h := nomatch h

theorem IsCurrent.totalled_update (h : IsCurrent job p) {i : ℕ} {t : ScanStatus}
    (ht : ∀ totals, t = .totalled totals → totals = totalsOf p.shared.completedBuckets) (j : ℕ)
    (totals : SummaryTotals) (hj : Function.update p.status i t j = .totalled totals) :
    totals = totalsOf p.shared.completedBuckets := by
  rcases update_eq_cases hj with ⟨_, hu⟩ | ⟨_, hj⟩
  · exact ht totals hu
  · exact h.totalled j totals hj

theorem IsCurrent.written_update (h : IsCurrent job p) {i : ℕ} {t : ScanStatus}
    (ht : ∀ workbook, t = .written workbook →
      workbook = job.generate (totalsOf p.shared.completedBuckets) p.shared.completedBuckets)
    (j : ℕ) (workbook : Workbook) (hj : Function.update p.status i t j = .written workbook) :
    workbook = job.generate (totalsOf p.shared.completedBuckets) p.shared.completedBuckets := by
  rcases update_eq_cases hj with ⟨_, hu⟩ | ⟨_, hj⟩
  · exact ht workbook hu
  · exact h.written j workbook hj

/-- A step outside the way from the addition to the report. -/
theorem IsCurrent.keep (h : IsCurrent job p) {i : ℕ} {s : SummaryState} {t : ScanStatus}
    (hbefore : (p.status i).isPending = false) (hpending : t.isPending = false)
    (hshown : t = .exported ∨ t = .done → p.status i = .exported ∨ p.status i = .done)
    (hlist : s.completedBuckets = p.shared.completedBuckets)
    (hreport : s.report = p.shared.report) :
    IsCurrent job ⟨s, Function.update p.status i t⟩ := by
  refine ⟨?_, ?_, fun j hj ↦ ?_⟩
  · rw [hlist]
    apply h.totalled_update
    rintro totals rfl
    exact nomatch hpending
  · rw [hlist]
    apply h.written_update
    rintro workbook rfl
    exact nomatch hpending
  · have hbeforeShown : p.status j = .exported ∨ p.status j = .done := by
      rcases hj with hj | hj
      all_goals
        rcases update_eq_cases hj with ⟨rfl, ht⟩ | ⟨_, hj⟩
      · exact hshown (.inl ht)
      · exact .inl hj
      · exact hshown (.inr ht)
      · exact .inr hj
    rcases h.shown j hbeforeShown with hfresh | ⟨k, hk⟩
    · left
      rwa [IsFresh, hlist, hreport]
    · right
      have hki : k ≠ i := by
        rintro rfl
        rw [hbefore] at hk
        exact nomatch hk
      exact ⟨k, (congrArg _ (Function.update_of_ne hki t p.status)).trans hk⟩

theorem exists_isPending_update (f : ℕ → ScanStatus) (i : ℕ) {t : ScanStatus}
    (ht : t.isPending = true) : ∃ j, (Function.update f i t j).isPending = true :=
  ⟨i, by rwa [Function.update_self]⟩

/-- Whoever has taken from the list before has taken all there is. -/
theorem IsCurrent.append (h : IsCurrent job p) (hquiet : IsQuiet job p) {i : ℕ}
    (hstatus : p.status i = .scanned) :
    IsCurrent job ⟨{ p.shared with
      completedBuckets := p.shared.completedBuckets ++ job.addition i },
      Function.update p.status i .added⟩ := by
  have hsame : ∀ j, (p.status j).isPending = true →
      p.shared.completedBuckets ++ job.addition i = p.shared.completedBuckets := by
    intro j hj
    by_cases hreportable : (job.summary i).isReportable = true
    · rw [hquiet i j hstatus hreportable] at hj
      exact nomatch hj
    · rw [SummaryJob.addition, if_neg hreportable, List.append_nil]
  refine ⟨fun j totals hj ↦ ?_, fun j workbook hj ↦ ?_,
    fun j _ ↦ .inr (exists_isPending_update p.status i rfl)⟩
  · rcases update_eq_cases hj with ⟨_, hu⟩ | ⟨_, hj⟩
    · exact nomatch hu
    · exact (h.totalled j totals hj).trans (by rw [hsame j (by rw [hj]; rfl)])
  · rcases update_eq_cases hj with ⟨_, hu⟩ | ⟨_, hj⟩
    · exact nomatch hu
    · exact (h.written j workbook hj).trans (by rw [hsame j (by rw [hj]; rfl)])

theorem IsCurrent.step (h : IsCurrent job p) (hquiet : IsQuiet job p)
    (hstep : Step job.ScanOne p p') : IsCurrent job p' := by
  cases hstep with
  | @worker i s t hact =>
      generalize hstatus : p.status i = before at hact
      cases hact with
      | start next item free =>
          exact h.keep (by rw [hstatus]; rfl) rfl (fun hu ↦ by simp at hu) rfl rfl
      | scan => exact h.keep (by rw [hstatus]; rfl) rfl (fun hu ↦ by simp at hu) rfl rfl
      | append => exact h.append hquiet hstatus
      | sum =>
          exact ⟨h.totalled_update (fun totals hu ↦ (ScanStatus.totalled.inj hu).symm),
            h.written_update (fun workbook hu ↦ nomatch hu),
            fun j _ ↦ .inr (exists_isPending_update p.status i rfl)⟩
      | write =>
          refine ⟨h.totalled_update (fun totals hu ↦ nomatch hu),
            h.written_update (fun workbook hu ↦ ?_),
            fun j _ ↦ .inr (exists_isPending_update p.status i rfl)⟩
          rw [← ScanStatus.written.inj hu, h.totalled i _ hstatus]
      | rename =>
          exact ⟨h.totalled_update (fun totals hu ↦ nomatch hu),
            h.written_update (fun workbook hu ↦ nomatch hu),
            fun j _ ↦ .inl (congrArg some (h.written i _ hstatus))⟩
      | leave => exact h.keep (by rw [hstatus]; rfl) rfl (fun _ ↦ .inl hstatus) rfl rfl

/-- In a run that is quiet at each of its steps, the last report is complete. -/
theorem reportIsComplete_of_quiet (hrun : Relation.ReflTransGen
      (fun q q' ↦ IsQuiet job q ∧ Step job.ScanOne q q') SummaryJob.runStart p)
    (hbuckets : 0 < job.total) (hdone : ∀ i < job.total, p.status i = .done) :
    job.ReportIsComplete p.shared := by
  have hcurrent : IsCurrent job p := by
    clear hdone
    induction hrun with
    | refl => exact isCurrent_runStart job
    | tail _ hstep ih => exact ih.step hstep.1 hstep.2
  have hreaches : job.Reaches SummaryJob.runStart p :=
    Relation.ReflTransGen.mono (fun _ _ hstep ↦ hstep.2) _ _ hrun
  obtain ⟨order, hrecorded⟩ := exists_isRecorded hreaches
  apply hrecorded.reportIsComplete hdone
  rcases hcurrent.shown 0 (.inr (hdone 0 hbuckets)) with hfresh | ⟨j, hj⟩
  · exact hfresh
  · have hitem : j < job.total := by
      apply hrecorded.item
      rintro hqueued
      rw [hqueued] at hj
      exact nomatch hj
    rw [hdone j hitem] at hj
    exact nomatch hj

/-! ## One worker -/

/-- At most one bucket is being worked on, and none when no worker is active. -/
structure IsAlone (p : SummaryJob.Run) : Prop where
  unique : ∀ i j, (p.status i).isBusy = true → (p.status j).isBusy = true → i = j
  idle : p.shared.active = 0 → ∀ i, (p.status i).isBusy = false

theorem isAlone_runStart : IsAlone SummaryJob.runStart where
  unique _ _ h := nomatch h
  idle _ _ := rfl

theorem IsAlone.keep (h : IsAlone p) {i : ℕ} {s : SummaryState} (t : ScanStatus)
    (hbusy : (p.status i).isBusy = true) (hactive : s.active = p.shared.active) :
    IsAlone ⟨s, Function.update p.status i t⟩ := by
  have hbefore : ∀ j, (Function.update p.status i t j).isBusy = true → j = i := by
    intro j hj
    by_contra hji
    rw [Function.update_of_ne hji] at hj
    exact hji (h.unique j i hj hbusy)
  refine ⟨fun j k hj hk ↦ (hbefore j hj).trans (hbefore k hk).symm, fun hidle ↦ ?_⟩
  have hfree := h.idle (hactive.symm.trans hidle) i
  rw [hbusy] at hfree
  exact nomatch hfree

theorem IsAlone.step (h : IsAlone p) (hworkers : job.workers ≤ 1)
    (hstep : Step job.ScanOne p p') : IsAlone p' := by
  cases hstep with
  | @worker i s t hact =>
      generalize hstatus : p.status i = before at hact
      cases hact with
      | start next item free =>
          have hidle := h.idle (Nat.lt_one_iff.mp (free.trans_le hworkers))
          have honly : ∀ j, (Function.update p.status i .scanning j).isBusy = true → j = i := by
            intro j hj
            by_contra hji
            rw [Function.update_of_ne hji, hidle j] at hj
            exact nomatch hj
          exact ⟨fun j k hj hk ↦ (honly j hj).trans (honly k hk).symm,
            fun hactive ↦ nomatch hactive⟩
      | scan => exact h.keep .scanned (by rw [hstatus]; rfl) rfl
      | append => exact h.keep .added (by rw [hstatus]; rfl) rfl
      | sum => exact h.keep _ (by rw [hstatus]; rfl) rfl
      | write => exact h.keep _ (by rw [hstatus]; rfl) rfl
      | rename => exact h.keep .exported (by rw [hstatus]; rfl) rfl
      | leave =>
          have hidle : ∀ j, (Function.update p.status i .done j).isBusy = false := by
            intro j
            by_cases hji : j = i
            · subst hji
              rw [Function.update_self]
              rfl
            · rw [Function.update_of_ne hji, ← Bool.not_eq_true]
              exact fun hj ↦ hji (h.unique j i hj (by rw [hstatus]; rfl))
          exact ⟨fun j _ hj ↦ absurd ((hidle j).symm.trans hj) Bool.false_ne_true, fun _ ↦ hidle⟩

theorem IsAlone.isQuiet (h : IsAlone p) (job : SummaryJob) : IsQuiet job p := by
  intro i j hi _
  rw [← Bool.not_eq_true]
  intro hpending
  have hbusy : (p.status j).isBusy = true := by
    cases hj : p.status j <;> rw [hj] at hpending <;> first | rfl | exact nomatch hpending
  obtain rfl := h.unique i j (by rw [hi]; rfl) hbusy
  rw [hi] at hpending
  exact nomatch hpending

theorem isAlone_of_reaches (hworkers : job.workers ≤ 1)
    (hrun : job.Reaches SummaryJob.runStart p) : IsAlone p := by
  induction hrun with
  | refl => exact isAlone_runStart
  | tail _ hstep ih => exact ih.step hworkers hstep

theorem reportIsComplete_of_forall_quiet (hquiet : ∀ q, job.Reaches SummaryJob.runStart q →
      IsQuiet job q) (hbuckets : 0 < job.total) : job.LastReportIsComplete := by
  intro p hrun hdone
  refine reportIsComplete_of_quiet ?_ hbuckets hdone
  clear hdone
  induction hrun with
  | refl => exact .refl
  | tail hrun hstep ih => exact ih.tail ⟨hquiet _ hrun, hstep⟩

/-! ## Two workers -/

theorem exists_started {i : ℕ} (hstatus : p.status i = .queued) (hnext : p.shared.started = i)
    (hitem : i < job.total) (hfree : p.shared.active < job.workers) :
    ∃ q, job.Reaches p q ∧ q.status i = .scanning ∧ (∀ j, j ≠ i → q.status j = p.status j) ∧
      q.shared.started = i + 1 ∧ q.shared.active = p.shared.active + 1 :=
  ⟨_, .single (.of_status hstatus (.start hnext hitem hfree)), Function.update_self ..,
    fun _ hj ↦ Function.update_of_ne hj .., rfl, rfl⟩

theorem exists_written {i : ℕ} (hstatus : p.status i = .scanning) :
    ∃ q totals, job.Reaches p q ∧
      q.status i = .written (job.generate totals q.shared.completedBuckets) ∧
      (∀ j, j ≠ i → q.status j = p.status j) ∧
      q.shared.started = p.shared.started ∧ q.shared.active = p.shared.active := by
  have hself := fun (f : ℕ → ScanStatus) (t : ScanStatus) ↦ Function.update_self i t f
  have hscan : job.Reaches p _ := .single (.of_status hstatus SummaryJob.ScanOne.scan)
  have happend := hscan.tail (.of_status (hself ..) SummaryJob.ScanOne.append)
  have hsum := happend.tail (.of_status (hself ..) SummaryJob.ScanOne.sum)
  have hwrite := hsum.tail (.of_status (hself ..) SummaryJob.ScanOne.write)
  refine ⟨_, _, hwrite, hself .., fun j hj ↦ ?_, rfl, rfl⟩
  simp only [Function.update_of_ne hj]

theorem exists_left {i : ℕ} {workbook : Workbook} (hstatus : p.status i = .written workbook) :
    ∃ q, job.Reaches p q ∧ q.status i = .done ∧ (∀ j, j ≠ i → q.status j = p.status j) ∧
      q.shared.started = p.shared.started ∧ q.shared.active = p.shared.active - 1 ∧
      q.shared.report = some workbook := by
  have hrename : job.Reaches p _ := .single (.of_status hstatus SummaryJob.ScanOne.rename)
  have hleave := hrename.tail (.of_status (Function.update_self ..) SummaryJob.ScanOne.leave)
  refine ⟨_, hleave, Function.update_self .., fun j hj ↦ ?_, rfl, rfl, rfl⟩
  simp only [Function.update_of_ne hj]

theorem exists_done {i : ℕ} (hstatus : p.status i = .scanning) :
    ∃ q, job.Reaches p q ∧ q.status i = .done ∧ (∀ j, j ≠ i → q.status j = p.status j) ∧
      q.shared.started = p.shared.started ∧ q.shared.active = p.shared.active - 1 := by
  obtain ⟨q, totals, hrun, hwritten, hothers, hstarted, hactive⟩ := exists_written hstatus
  obtain ⟨q', hrun', hdone, hothers', hstarted', hactive', _⟩ := exists_left hwritten
  exact ⟨q', hrun.trans hrun', hdone, fun j hj ↦ (hothers' j hj).trans (hothers j hj),
    hstarted'.trans hstarted, hactive'.trans (by rw [hactive])⟩

theorem exists_done_until (job : SummaryJob) (p : SummaryJob.Run)
    (hqueued : ∀ j, p.shared.started ≤ j → p.status j = .queued)
    (hfree : p.shared.active < job.workers) {m : ℕ} (hm : p.shared.started ≤ m)
    (htotal : m ≤ job.total) :
    ∃ q, job.Reaches p q ∧ (∀ j, j < p.shared.started → q.status j = p.status j) ∧
      (∀ j, p.shared.started ≤ j → j < m → q.status j = .done) ∧
      (∀ j, m ≤ j → q.status j = .queued) ∧
      q.shared.started = m ∧ q.shared.active = p.shared.active := by
  induction m, hm using Nat.le_induction with
  | base => exact ⟨p, .refl, fun _ _ ↦ rfl, fun j hj hlt ↦ absurd hj hlt.not_ge, hqueued, rfl, rfl⟩
  | succ m hm ih =>
      obtain ⟨q, hrun, hbefore, hdone, hafter, hstarted, hactive⟩ := ih (Nat.le_of_succ_le htotal)
      obtain ⟨q₁, hrun₁, hscanning, hothers₁, hstarted₁, hactive₁⟩ :=
        exists_started (hafter m le_rfl) hstarted htotal (hactive ▸ hfree)
      obtain ⟨q₂, hrun₂, hdone₂, hothers₂, hstarted₂, hactive₂⟩ := exists_done hscanning
      have hothers : ∀ j, j ≠ m → q₂.status j = q.status j := fun j hj ↦
        (hothers₂ j hj).trans (hothers₁ j hj)
      refine ⟨q₂, (hrun.trans hrun₁).trans hrun₂, fun j hj ↦ ?_, fun j hj hlt ↦ ?_, fun j hj ↦ ?_,
        hstarted₂.trans hstarted₁, by rw [hactive₂, hactive₁, hactive, Nat.add_sub_cancel]⟩
      · exact (hothers j (by omega)).trans (hbefore j hj)
      · by_cases hjm : j = m
        · exact hjm ▸ hdone₂
        · exact (hothers j hjm).trans (hdone j hj (by omega))
      · exact (hothers j (by omega)).trans (hafter j (by omega))

theorem length_eq_of_generate_eq {totals totals' : SummaryTotals} {l l' : List BucketSummary}
    (h : job.generate totals l = job.generate totals' l') : l.length = l'.length := by
  have hrows := congrArg (fun workbook : Workbook ↦ workbook.map fun s ↦ s.2.length) h
  simpa [SummaryJob.generate, generateStorageReport] using hrows

theorem IsRecorded.length_lt (h : IsRecorded job order p) {r : ℕ}
    (hadded : (p.status r).isAdded = false) {q : SummaryJob.Run} {order' : List ℕ}
    (h' : IsRecorded job order' q) (hdone : ∀ i < job.total, q.status i = .done)
    (hr : r < job.total) (hreportable : (job.summary r).isReportable = true) :
    p.shared.completedBuckets.length < q.shared.completedBuckets.length := by
  have hnew : r ∉ order := fun hmem ↦ by
    rw [h.mem_iff, hadded] at hmem
    exact nomatch hmem
  obtain ⟨l, hperm, hsub⟩ : (r :: order).Subperm order' := by
    apply List.subperm_of_subset (List.nodup_cons.mpr ⟨hnew, h.nodup⟩)
    intro i hi
    have hi : i < job.total := by
      rcases List.mem_cons.mp hi with rfl | hi
      · exact hr
      · apply h.item i
        intro hqueued
        rw [h.mem_iff, hqueued] at hi
        exact nomatch hi
    rw [h'.mem_iff, hdone i hi]
    rfl
  have hlength := ((hsub.map job.summary).filter BucketSummary.isReportable).length_le
  rw [((hperm.map job.summary).filter _).length_eq, List.map_cons,
    List.filter_cons_of_pos hreportable, List.length_cons] at hlength
  rw [h.listed, h'.listed]
  exact hlength

theorem exists_neighbour {r n : ℕ} (hr : r < n) (hn : 1 < n) :
    ∃ a m, m + 1 < n ∧ (a = m ∧ r = m + 1 ∨ a = m + 1 ∧ r = m) := by
  cases r with
  | zero => exact ⟨1, 0, hn, .inr ⟨rfl, rfl⟩⟩
  | succ m => exact ⟨m, m, hr, .inl ⟨rfl, rfl⟩⟩

theorem exists_both_scanning (hworkers : 1 < job.workers) {m : ℕ} (hm : m + 1 < job.total) :
    ∃ q, job.Reaches SummaryJob.runStart q ∧ q.status m = .scanning ∧
      q.status (m + 1) = .scanning ∧ (∀ j < m, q.status j = .done) ∧
      (∀ j, m + 2 ≤ j → q.status j = .queued) ∧
      q.shared.started = m + 2 ∧ q.shared.active = 2 := by
  obtain ⟨p₀, hrun₀, -, hdone₀, hqueued₀, hstarted₀, hactive₀⟩ :=
    exists_done_until job SummaryJob.runStart (fun _ _ ↦ rfl)
      (Nat.zero_lt_of_lt hworkers) (Nat.zero_le m) (Nat.le_of_succ_le hm.le)
  have hidle : p₀.shared.active = 0 := hactive₀
  obtain ⟨p₁, hrun₁, hscanning₁, hothers₁, hstarted₁, hactive₁⟩ :=
    exists_started (hqueued₀ m le_rfl) hstarted₀ (Nat.lt_of_succ_lt hm)
      (by rw [hidle]; exact Nat.zero_lt_of_lt hworkers)
  obtain ⟨p₂, hrun₂, hscanning₂, hothers₂, hstarted₂, hactive₂⟩ :=
    exists_started ((hothers₁ (m + 1) (by omega)).trans (hqueued₀ (m + 1) (by omega))) hstarted₁ hm
      (by rw [hactive₁, hidle]; exact hworkers)
  have hothers : ∀ j, j ≠ m → j ≠ m + 1 → p₂.status j = p₀.status j := fun j hj hj' ↦
    (hothers₂ j hj').trans (hothers₁ j hj)
  refine ⟨p₂, (hrun₀.trans hrun₁).trans hrun₂, (hothers₂ m (by omega)).trans hscanning₁,
    hscanning₂, fun j hj ↦ ?_, fun j hj ↦ ?_, hstarted₂, by rw [hactive₂, hactive₁, hidle]⟩
  · exact (hothers j (by omega) (by omega)).trans (hdone₀ j (Nat.zero_le j) hj)
  · exact (hothers j (by omega) (by omega)).trans (hqueued₀ j (by omega))

/-- With two workers, one may show at the end what it has taken before another has added
its bucket. -/
theorem not_lastReportIsComplete (hworkers : 1 < job.workers) {r : ℕ} (hr : r < job.total)
    (hreportable : (job.summary r).isReportable = true) : ¬job.LastReportIsComplete := by
  intro hcomplete
  obtain ⟨a, m, hm, har⟩ := exists_neighbour hr (hworkers.trans_le (Nat.min_le_right ..))
  obtain ⟨p₂, hrun₂, hfirst, hsecond, hdone₂, hqueued₂, hstarted₂, hactive₂⟩ :=
    exists_both_scanning hworkers hm
  have hscanning : p₂.status a = .scanning ∧ p₂.status r = .scanning := by
    rcases har with ⟨rfl, rfl⟩ | ⟨rfl, rfl⟩
    · exact ⟨hfirst, hsecond⟩
    · exact ⟨hsecond, hfirst⟩
  -- one has written its workbook, then all the others are done
  obtain ⟨p₃, totals, hrun₃, hwritten₃, hothers₃, hstarted₃, hactive₃⟩ := exists_written hscanning.1
  have hscanning₃ : p₃.status r = .scanning := (hothers₃ r (by omega)).trans hscanning.2
  obtain ⟨p₄, hrun₄, hdone₄, hothers₄, hstarted₄, hactive₄⟩ := exists_done hscanning₃
  have hstarted : p₄.shared.started = m + 2 := by omega
  have hactive : p₄.shared.active = 1 := by omega
  have hrest : ∀ j, j ≠ m → j ≠ m + 1 → p₄.status j = p₂.status j := fun j hj hj' ↦
    (hothers₄ j (by omega)).trans (hothers₃ j (by omega))
  obtain ⟨p₅, hrun₅, hbefore₅, hdone₅, -, -, -⟩ :=
    exists_done_until job p₄
      (fun j hj ↦ (hrest j (by omega) (by omega)).trans (hqueued₂ j (by omega)))
      (hactive ▸ hworkers) (by omega) (le_refl job.total)
  have hwritten₅ := (hbefore₅ a (by omega)).trans ((hothers₄ a (by omega)).trans hwritten₃)
  obtain ⟨p₆, hrun₆, hdone₆, hothers₆, -, -, hreport⟩ := exists_left hwritten₅
  have hdone : ∀ i < job.total, p₆.status i = .done := by
    intro i hi
    by_cases hia : i = a
    · exact hia ▸ hdone₆
    · rw [hothers₆ i hia]
      by_cases hlater : p₄.shared.started ≤ i
      · exact hdone₅ i hlater hi
      · rw [hbefore₅ i (by omega)]
        by_cases hir : i = r
        · exact hir ▸ hdone₄
        · rw [hrest i (by omega) (by omega)]
          exact hdone₂ i (by omega)
  have hreaches₃ : job.Reaches SummaryJob.runStart p₃ := hrun₂.trans hrun₃
  have hreaches : job.Reaches SummaryJob.runStart p₆ :=
    ((hreaches₃.trans hrun₄).trans hrun₅).trans hrun₆
  obtain ⟨order, hrecorded₃⟩ := exists_isRecorded hreaches₃
  obtain ⟨order', hrecorded⟩ := exists_isRecorded hreaches
  have hlt := hrecorded₃.length_lt (by rw [hscanning₃]; rfl) hrecorded hdone hr hreportable
  obtain ⟨listed, hperm, hlisted⟩ := hcomplete p₆ hreaches hdone
  have hlength := length_eq_of_generate_eq (Option.some.inj (hreport.symm.trans hlisted))
  rw [hlength, hperm.length_eq, (hrecorded.perm_finalSummary hdone).length_eq] at hlt
  exact lt_irrefl _ hlt

/-- The last report is complete whatever the order of the steps exactly when there is a
bucket, and either no two are worked on at a time or none is to be reported. -/
theorem lastReportIsComplete_iff (job : SummaryJob) :
    job.LastReportIsComplete ↔ 0 < job.total ∧
      (job.workers ≤ 1 ∨ ∀ i < job.total, (job.summary i).isReportable = false) := by
  constructor
  · intro h
    have htotal : 0 < job.total := by
      by_contra hzero
      obtain ⟨listed, _, hreport⟩ := h SummaryJob.runStart .refl fun i hi ↦ absurd hi (by omega)
      exact nomatch hreport
    refine ⟨htotal, ?_⟩
    by_contra! hbad
    obtain ⟨hworkers, r, hr, hreportable⟩ := hbad
    exact not_lastReportIsComplete hworkers hr (by simpa using hreportable) h
  · rintro ⟨htotal, hworkers | hnone⟩
    · exact reportIsComplete_of_forall_quiet
        (fun q hq ↦ (isAlone_of_reaches hworkers hq).isQuiet job) htotal
    · refine reportIsComplete_of_forall_quiet (fun q hq i j hi hreportable ↦ ?_) htotal
      obtain ⟨order, hrecorded⟩ := exists_isRecorded hq
      have hitem : i < job.total := hrecorded.item i (by rw [hi]; exact ScanStatus.noConfusion)
      rw [hnone i hitem] at hreportable
      exact nomatch hreportable

end Runs

/-- Two empty buckets, scanned by two workers. -/
def twoBuckets : SummaryJob where
  targetBuckets := ["media".toList, "photos".toList]
  concurrency := 2
  scan _ := .ok []
  formatBytes _ := "0 B".toList

theorem twoBuckets_lastReport_incomplete : ¬twoBuckets.LastReportIsComplete :=
  not_lastReportIsComplete (by decide) (by decide : 1 < twoBuckets.total) (by decide)

end StorageReconciler
