import StorageReconciler.ArchiveAccounts
import StorageReconciler.ArchiveTallies
import StorageReconciler.ItemSnapshots

/-!
# The page of an archive job

The page counts what it is told of the items, and takes a row off its list when it is
told that the object was deleted.  A connection may be lost at any time, and the page
then connects to the same job again, whose stream tells everything anew.
-/

namespace StorageReconciler

open Strings Workers Tallies CoalescedLog

/-! ## The handlers -/

/-- The counters of one attempt. -/
structure PageCounters where
  copied : ℕ
  skipped : ℕ
  copyErrors : ℕ
  verified : ℕ
  deleted : ℕ
  failed : ℕ
  deriving DecidableEq

namespace PageCounters

def zero : PageCounters := ⟨0, 0, 0, 0, 0, 0⟩

def copyProgress (c : PageCounters) (success skipped : Bool) : PageCounters :=
  if !success then { c with copyErrors := c.copyErrors + 1 }
  else if skipped then { c with skipped := c.skipped + 1 }
  else { c with copied := c.copied + 1 }

def itemDone (c : PageCounters) (r : ArchiveResult) : PageCounters :=
  let c := if r.archiveVerified then { c with verified := c.verified + 1 } else c
  if r.deleteSuccess then { c with deleted := c.deleted + 1 }
  else if r.copySuccess then { c with failed := c.failed + 1 }
  else c

end PageCounters

/-- What the page keeps of a report: the rows that are left, the job to connect to with
the rows it was begun with, and the attempt that is under way. -/
structure ArchivePage where
  deleteRows : List DeleteItem
  archiveJobId : Option Str
  archiveJobItems : Option (List DeleteItem)
  archiveRunning : Bool
  counters : PageCounters
  receivedDone : Bool

def DeleteItem.names (row : DeleteItem) : Str × Str := (row.bucket, row.key)

namespace ArchivePage

variable (page : ArchivePage)

/-- The page once the rows of a report are read. -/
def load (rows : List DeleteItem) : ArchivePage := ⟨rows, none, none, false, .zero, false⟩

/-- `archiveJobId && archiveJobItems ? archiveJobItems : deleteRows` -/
def items : List DeleteItem :=
  match page.archiveJobId, page.archiveJobItems with
  | some _, some items => items
  | _, _ => page.deleteRows

/-- An attempt begins. -/
def click : ArchivePage :=
  { page with
    archiveJobItems := some page.items
    archiveRunning := true
    counters := .zero
    receivedDone := false }

/-- An attempt ends, in whatever way. -/
def stop : ArchivePage := { page with archiveRunning := false }

def copyProgress (success skipped : Bool) : ArchivePage :=
  { page with counters := page.counters.copyProgress success skipped }

def itemDone (r : ArchiveResult) : ArchivePage :=
  { page with
    counters := page.counters.itemDone r
    deleteRows :=
      if r.deleteSuccess then
        page.deleteRows.filter fun row ↦ !decide (row.bucket = r.bucket ∧ row.key = r.key)
      else page.deleteRows }

def done (results : List ArchiveResult) : ArchivePage :=
  { page with
    receivedDone := true
    archiveJobId := none
    deleteRows := page.deleteRows.filter fun row ↦ !results.any fun r ↦
      r.deleteSuccess && decide (r.bucket = row.bucket) && decide (r.key = row.key) }

/-- The handler of an event; those that only write labels are left out. -/
def handle (e : ArchiveEvent) : ArchivePage :=
  match e.data with
  | .fields _ _ _ (.copyProgress _ _ success skipped) => page.copyProgress success skipped
  | .fields _ _ _ (.archiveProgress _ _ _ _ (some result)) => page.itemDone result
  | .fields _ _ _ (.done results) => page.done results
  | .fields _ _ _ _ => page
  | .message _ =>
      if e.event = "archive_failed".toList then { page with archiveJobId := none }
      else if e.event = "error".toList then page.stop
      else page

def receive : Frame ReportFields → ArchivePage
  | .archiveJob jobId _ => { page with archiveJobId := some jobId }
  | .event _ e => page.handle e
  | .heartbeat => page

end ArchivePage

/-! ## The page and its job -/

/-- A page, the job that it is connected to and the stream it reads.  Beside them stand
the rows with which it first connected to the job, and what it may have been told before. -/
structure PageRun (σ δ : Type*) where
  page : ArchivePage
  job : ReportingJob σ δ
  known : Bool
  reader : Stream ReportFields
  handled : ℕ
  begun : List DeleteItem
  past : List ArchiveResult

variable {σ δ : Type*}

namespace PageRun

/-- A click of the page that connects to a job for the first time. -/
def connect (page : ArchivePage) (job : ReportingJob σ δ) (past : List ArchiveResult) :
    PageRun σ δ where
  page := page.click
  job := job
  known := true
  reader := .start
  handled := 0
  begun := page.deleteRows
  past := past

variable (w : PageRun σ δ)

/-- The page handles a frame. -/
def handle (frame : Frame ReportFields) : PageRun σ δ :=
  { w with page := w.page.receive frame, handled := w.handled + 1 }

/-- The results that were told, by the job or before. -/
def told : List ArchiveResult := w.past ++ w.job.itemDones.map Prod.snd

end PageRun

section Steps

variable [DecidableEq σ] (archive : σ) (sha256 : List UInt8 → δ)
  (named : Location σ → ObjectHead → List UInt8)

def ReportingJob.IsReachable (p : ReportingJob σ δ) : Prop :=
  ∃ request uuid source bucketErrors objects,
    Relation.ReflTransGen (ReportStep archive sha256 named)
      (.start request uuid source bucketErrors objects) p

/-- The job that a request for the rows comes to: a new one for them, or one that is at work
on them. -/
def Serves (rows : List DeleteItem) (job : ReportingJob σ δ) : Prop :=
  (∃ request uuid source bucketErrors objects, request.items = rows.map DeleteItem.names ∧
      job = .start request uuid source bucketErrors objects) ∨
    job.IsReachable archive sha256 named ∧ job.state.finished = false ∧
      ∀ row ∈ rows, row.names ∈ job.run.items

/-- The steps of the job, of its stream and of the page. -/
inductive PageStep : PageRun σ δ → PageRun σ δ → Prop where
  | work {w : PageRun σ δ} {job : ReportingJob σ δ}
      (step : ReportStep archive sha256 named w.job job) : PageStep w { w with job := job }
  | read {w : PageRun σ δ} {reader : Stream ReportFields}
      (step : ReadStep w.job.state w.reader reader) : PageStep w { w with reader := reader }
  | forgets {w : PageRun σ δ} : PageStep w { w with known := false }
  | handles {w : PageRun σ δ} {frame : Frame ReportFields}
      (running : w.page.archiveRunning = true) (next : w.reader.frames[w.handled]? = some frame) :
      PageStep w (w.handle frame)
  | stops {w : PageRun σ δ} (running : w.page.archiveRunning = true) :
      PageStep w { w with page := w.page.stop }
  | reconnects {w : PageRun σ δ} {jobId : Str} (idle : w.page.archiveRunning = false)
      (named : w.page.archiveJobId = some jobId) (known : w.known = true)
      (covered : ∀ row ∈ w.page.items, row.names ∈ w.job.run.items) :
      PageStep w { w with page := w.page.click, reader := .start, handled := 0 }
  | refused {w : PageRun σ δ} (idle : w.page.archiveRunning = false) :
      PageStep w { w with page := w.page.click.stop, reader := .start, handled := 0 }
  | connects {w : PageRun σ δ} {job : ReportingJob σ δ} (idle : w.page.archiveRunning = false)
      (unnamed : w.page.archiveJobId = none) (left : w.page.deleteRows ≠ [])
      (serves : Serves archive sha256 named w.page.deleteRows job) :
      PageStep w (.connect w.page job w.told)

end Steps

/-! ## What the handlers do -/

/-- The counters after some copies and some items were told. -/
def countersOf (copies : List (ℕ × (Str × Bool × Bool))) (items : List (ℕ × ArchiveResult)) :
    PageCounters where
  copied := copies.countP fun c ↦ c.2.2.1 && !c.2.2.2
  skipped := copies.countP fun c ↦ c.2.2.1 && c.2.2.2
  copyErrors := copies.countP fun c ↦ !c.2.2.1
  verified := items.countP fun c ↦ c.2.archiveVerified
  deleted := items.countP fun c ↦ c.2.deleteSuccess
  failed := items.countP fun c ↦ !c.2.deleteSuccess && c.2.copySuccess

theorem countersOf_copyProgress (copies : List (ℕ × (Str × Bool × Bool)))
    (items : List (ℕ × ArchiveResult)) (n : ℕ) (key : Str) (success skipped : Bool) :
    (countersOf copies items).copyProgress success skipped =
      countersOf (copies ++ [(n, key, success, skipped)]) items := by
  cases success <;> cases skipped <;> simp [countersOf, PageCounters.copyProgress]

theorem countersOf_itemDone (copies : List (ℕ × (Str × Bool × Bool)))
    (items : List (ℕ × ArchiveResult)) (n : ℕ) (r : ArchiveResult) :
    (countersOf copies items).itemDone r = countersOf copies (items ++ [(n, r)]) := by
  cases hverified : r.archiveVerified <;> cases hdeleted : r.deleteSuccess <;>
    cases hcopied : r.copySuccess <;>
    simp [countersOf, PageCounters.itemDone, hverified, hdeleted, hcopied]

/-- The object of the row was deleted. -/
def ArchiveResult.deletes (r : ArchiveResult) (row : DeleteItem) : Bool :=
  r.deleteSuccess && decide ((r.bucket, r.key) = row.names)

/-- The rows whose objects were not deleted. -/
def remaining (rows : List DeleteItem) (results : List ArchiveResult) : List DeleteItem :=
  rows.filter fun row ↦ !results.any (·.deletes row)

theorem remaining_nil (rows : List DeleteItem) : remaining rows [] = rows := by
  simp [remaining]

theorem remaining_remaining (rows : List DeleteItem) (results results' : List ArchiveResult) :
    remaining (remaining rows results) results' = remaining rows (results ++ results') := by
  rw [remaining, remaining, List.filter_filter]
  apply List.filter_congr
  intro row _
  rw [List.any_append, Bool.not_or, Bool.and_comm]

theorem mem_remaining {rows : List DeleteItem} {results : List ArchiveResult} {row : DeleteItem} :
    row ∈ remaining rows results ↔ row ∈ rows ∧ ∀ r ∈ results, r.deletes row = false := by
  simp [remaining, List.mem_filter]

theorem remaining_congr {rows : List DeleteItem} {results results' : List ArchiveResult}
    (h : ∀ r, r ∈ results ↔ r ∈ results') : remaining rows results = remaining rows results' := by
  apply List.filter_congr
  intro row _
  have hany : results.any (·.deletes row) = results'.any (·.deletes row) := by
    rw [Bool.eq_iff_iff, List.any_eq_true, List.any_eq_true]
    exact exists_congr fun r ↦ and_congr_left fun _ ↦ h r
  rw [hany]

/-- The results that an event tells, one by one or at the end. -/
def toldBy (e : ArchiveEvent) : List ArchiveResult :=
  (itemDone? e).toList.map Prod.snd ++ (doneResults? e).getD []

namespace ArchivePage

variable (page : ArchivePage)

theorem itemDone_rows (r : ArchiveResult) :
    (page.itemDone r).deleteRows = remaining page.deleteRows [r] := by
  cases hdeleted : r.deleteSuccess with
  | false =>
      have hnone : ∀ row, r.deletes row = false := fun row ↦ by
        rw [ArchiveResult.deletes, hdeleted, Bool.false_and]
      simp [itemDone, hdeleted, remaining, hnone]
  | true =>
      simp only [itemDone, hdeleted, if_true, remaining]
      apply List.filter_congr
      intro row _
      simp [ArchiveResult.deletes, hdeleted, DeleteItem.names, eq_comm]

theorem done_rows (results : List ArchiveResult) :
    (page.done results).deleteRows = remaining page.deleteRows results := by
  apply List.filter_congr
  intro row _
  simp [ArchiveResult.deletes, DeleteItem.names, Bool.and_assoc]

theorem handle_counters (e : ArchiveEvent) {copies : List (ℕ × (Str × Bool × Bool))}
    {items : List (ℕ × ArchiveResult)} (h : page.counters = countersOf copies items) :
    (page.handle e).counters =
      countersOf (copies ++ (copyDone? e).toList) (items ++ (itemDone? e).toList) := by
  obtain ⟨name, data⟩ := e
  cases data with
  | message text =>
      simp only [handle, copyDone?, itemDone?, Option.toList_none, List.append_nil]
      split_ifs <;> exact h
  | fields bucket key phase rest =>
      cases rest with
      | copyProgress completed total success skipped =>
          simp only [copyDone?, itemDone?, Option.toList_none, List.append_nil]
          change page.counters.copyProgress success skipped = _
          rw [h]
          exact countersOf_copyProgress _ _ _ _ _ _
      | archiveProgress completed total transferred totalBytes result =>
          cases result with
          | none =>
              simp only [copyDone?, itemDone?, Option.toList_none, List.append_nil]
              exact h
          | some result =>
              simp only [copyDone?, itemDone?, Option.toList_none, List.append_nil]
              change page.counters.itemDone result = _
              rw [h]
              exact countersOf_itemDone _ _ _ _
      | _ =>
          simp only [copyDone?, itemDone?, Option.toList_none, List.append_nil]
          exact h

theorem handle_rows (e : ArchiveEvent) :
    (page.handle e).deleteRows = remaining page.deleteRows (toldBy e) := by
  obtain ⟨name, data⟩ := e
  cases data with
  | message text =>
      refine Eq.trans ?_ (remaining_nil _).symm
      simp only [handle]
      split_ifs <;> rfl
  | fields bucket key phase rest =>
      cases rest with
      | archiveProgress completed total transferred totalBytes result =>
          cases result with
          | none => exact (remaining_nil _).symm
          | some result => exact page.itemDone_rows result
      | done results => exact page.done_rows results
      | _ => exact (remaining_nil _).symm

theorem handle_receivedDone (e : ArchiveEvent) (h : (page.handle e).receivedDone = true) :
    page.receivedDone = true ∨ ∃ results, doneResults? e = some results := by
  obtain ⟨name, data⟩ := e
  cases data with
  | message text =>
      left
      simp only [handle] at h
      split_ifs at h <;> exact h
  | fields bucket key phase rest =>
      cases rest with
      | archiveProgress completed total transferred totalBytes result =>
          cases result <;> exact .inl h
      | done results => exact .inr ⟨results, rfl⟩
      | _ => exact .inl h

end ArchivePage

/-! ## Outcomes in the log -/

def HasOutcome (e : ArchiveEvent) : Prop :=
  (copyDone? e).isSome ∨ (itemDone? e).isSome ∨ (doneResults? e).isSome

theorem JobEvent.eventKey_of_name {β : Type*} {e : JobEvent β} (name : Str) (h : e.event = name)
    (hbytes : name ≠ "archive_bytes".toList) (hprogress : name ≠ "archive_progress".toList)
    (hphase : name ≠ "archive_phase".toList) : e.eventKey = none := by
  unfold eventKey
  rw [h, if_neg hbytes, if_neg fun hand ↦ hprogress hand.1, if_neg fun hand ↦ hphase hand.1]

theorem not_hasOutcome_progress {phase : Str} (hphase : phase ≠ "item_done".toList)
    (index total : ℕ) (item : Str × Str) (result : ArchiveResult) (transferred totalBytes : ℕ)
    (completed : Option ℕ) :
    ¬HasOutcome (progress phase index total item result transferred totalBytes completed) := by
  rintro (h | h | h)
  · exact Bool.false_ne_true h
  · rw [itemDone?_progress hphase] at h
    exact Bool.false_ne_true h
  · exact Bool.false_ne_true h

section Outcomes

variable [DecidableEq σ] {archive : σ} {sha256 : List UInt8 → δ}
  {named : Location σ → ObjectHead → List UInt8} {p q : ReportingJob σ δ}

theorem ItemStep.eventKey_of_hasOutcome {i : ℕ} {item : Str × Str} {e? : Option ArchiveEvent}
    (h : ItemStep archive sha256 named i item p e? q) :
    ∀ e, e? = some e → HasOutcome e → e.eventKey = none := by
  have hno : ∀ {e e' : ArchiveEvent}, some e' = some e → ¬HasOutcome e' → HasOutcome e →
      e.eventKey = none := fun heq hnot hout ↦ absurd (Option.some.inj heq ▸ hout) hnot
  intro e he hout
  cases h with
  | uploads =>
      obtain ⟨sent, _, rfl⟩ := Option.map_eq_some_iff.mp he
      rcases hout with h | h | h <;> exact absurd h Bool.false_ne_true
  | tellsCopy =>
      obtain rfl := Option.some.inj he
      exact JobEvent.eventKey_of_name "copy_progress".toList rfl (by decide) (by decide) (by decide)
  | tellsItem =>
      obtain rfl := Option.some.inj he
      exact JobEvent.eventKey_of_isOutcome (.inl ⟨.inl rfl, rfl⟩)
  | tellsDeletion =>
      obtain rfl := Option.some.inj he
      rcases hout with h | h | h <;> exact absurd h Bool.false_ne_true
  | checks => exact hno he (not_hasOutcome_progress (by decide) _ _ _ _ _ _ _) hout
  | beginsDigest verifying copy digesting new =>
      have hphase := (VerifyStatus.digesting_open digesting).1
      exact hno he (not_hasOutcome_progress hphase _ _ _ _ _ _ _) hout
  | tellsChunk now chunk verifying copy digesting hashing due =>
      have hphase := (VerifyStatus.digesting_open digesting).1
      exact hno he (not_hasOutcome_progress hphase _ _ _ _ _ _ _) hout
  | tellsDeleting => exact hno he (not_hasOutcome_progress (by decide) _ _ _ _ _ _ _) hout
  | _ => exact nomatch he

/-- An outcome is logged under its number, and before the job has told of its end. -/
theorem ReportStep.outcome_cases (h : ReportStep archive sha256 named p q)
    {copies : Tally (Str × Bool × Bool)} {items : Tally ArchiveResult}
    (hp : p.Settled copies items) :
    q.state.emitted = p.state.emitted ∨ ∃ e, q.state.emitted = p.state.emitted ++ [e] ∧
      (HasOutcome e → e.eventKey = none ∧ p.dones = []) := by
  have hplain : ∀ e : ArchiveEvent, ¬HasOutcome e → HasOutcome e →
      e.eventKey = none ∧ p.dones = [] := fun _ hnot hout ↦ absurd hout hnot
  cases h with
  | prepares =>
      refine .inr ⟨preparePhase, rfl, hplain _ ?_⟩
      rintro (h | h | h) <;> exact absurd h Bool.false_ne_true
  | @item q i item e? working at_item step =>
      obtain ⟨hstate, _⟩ := step.frame
      cases e? with
      | none => exact .inl (congrArg JobState.emitted hstate)
      | some e =>
          refine .inr ⟨e, congrArg (JobState.emitted · ++ [e]) hstate, fun hout ↦
            ⟨step.eventKey_of_hasOutcome e rfl hout, ?_⟩⟩
          apply List.eq_nil_iff_forall_not_mem.mpr
          intro results hmem
          have hfinished := (hp.done results hmem).2.1
          rcases step.phase with hphase | hphase
          · exact nomatch hphase.symm.trans hfinished
          · exact nomatch hphase.symm.trans hfinished
  | reports =>
      refine .inr ⟨reportPhase, rfl, hplain _ ?_⟩
      rintro (h | h | h) <;> exact absurd h Bool.false_ne_true
  | @done results working stage =>
      refine .inr ⟨doneEvent results, rfl, fun _ ↦ ⟨?_, hp.dones_eq (stage ▸ nofun)⟩⟩
      exact JobEvent.eventKey_of_isOutcome (.inr (.inl rfl))
  | @archiveFailed message =>
      refine .inr ⟨⟨"archive_failed".toList, .message message⟩, rfl, hplain _ ?_⟩
      rintro (h | h | h) <;> exact absurd h Bool.false_ne_true
  | @error message =>
      refine .inr ⟨⟨"error".toList, .message message⟩, rfl, hplain _ ?_⟩
      rintro (h | h | h) <;> exact absurd h Bool.false_ne_true
  | _ => exact .inl rfl

/-- Outcomes are logged under their numbers, and the end of the job after all others. -/
structure ReportingJob.Sealed (p : ReportingJob σ δ) : Prop where
  unkeyed : ∀ e ∈ p.state.emitted, HasOutcome e → e.eventKey = none
  last : p.state.emitted.Pairwise fun e e' ↦ (doneResults? e).isSome → ¬HasOutcome e'

omit [DecidableEq σ] in
theorem ReportingJob.IsAttributed.told_eq (h : p.IsAttributed) :
    p.copyDones = p.state.emitted.filterMap copyDone? ∧
      p.itemDones = p.state.emitted.filterMap itemDone? ∧
      p.dones = p.state.emitted.filterMap doneResults? := by
  rw [h.emitted, List.filterMap_map, List.filterMap_map, List.filterMap_map]
  exact ⟨rfl, rfl, rfl⟩

theorem ReportStep.sealed (h : ReportStep archive sha256 named p q)
    {copies : Tally (Str × Bool × Bool)} {items : Tally ArchiveResult}
    (hp : p.Settled copies items) (hattributed : p.IsAttributed) (hsealed : p.Sealed) :
    q.Sealed := by
  rcases h.outcome_cases hp with hsame | ⟨e, hemitted, hout⟩
  · exact ⟨hsame ▸ hsealed.unkeyed, hsame ▸ hsealed.last⟩
  · constructor
    · intro e' he' hout'
      rw [hemitted] at he'
      rcases List.mem_append.mp he' with hold | hnew
      · exact hsealed.unkeyed e' hold hout'
      · obtain rfl := List.mem_singleton.mp hnew
        exact (hout hout').1
    · rw [hemitted]
      refine List.pairwise_append.mpr ⟨hsealed.last, List.pairwise_singleton _ _, ?_⟩
      intro e' he' e'' he'' hdone hout'
      obtain rfl := List.mem_singleton.mp he''
      obtain ⟨results, hresults⟩ := Option.isSome_iff_exists.mp hdone
      have hmem : results ∈ p.dones := by
        rw [hattributed.told_eq.2.2]
        exact List.mem_filterMap.mpr ⟨e', he', hresults⟩
      rw [(hout hout').2] at hmem
      exact nomatch hmem

/-! ## Of a reachable job -/

theorem ReportingJob.IsReachable.step (hp : p.IsReachable archive sha256 named)
    (h : ReportStep archive sha256 named p q) : q.IsReachable archive sha256 named := by
  obtain ⟨request, uuid, source, bucketErrors, objects, hrun⟩ := hp
  exact ⟨request, uuid, source, bucketErrors, objects, hrun.tail h⟩

theorem ReportingJob.IsReachable.attributed (hp : p.IsReachable archive sha256 named) :
    p.IsAttributed := by
  obtain ⟨_, _, _, _, _, hrun⟩ := hp
  exact (IsAttributed.reachable hrun).1

theorem ReportingJob.IsReachable.sealed (hp : p.IsReachable archive sha256 named) :
    p.Sealed := by
  obtain ⟨_, _, _, _, _, hrun⟩ := hp
  induction hrun with
  | refl => exact ⟨fun e he ↦ (nomatch he), .nil⟩
  | tail hbefore hstep ih =>
      obtain ⟨_, _, _, _, _, _, _, hsettled⟩ := exists_tallies hbefore
      exact hstep.sealed hsettled (IsAttributed.reachable hbefore).1 ih

/-- While a run goes on its results are chained, and they stay so at its end. -/
def ReportingJob.ResultsChained (p : ReportingJob σ δ) : Prop :=
  p.run.Chained ∨
    p.run.phase = .finished ∧ ∀ i result, p.run.verify i = .done result → result.IsChained

theorem RunStep.unfinished {objects objects' : Objects σ} {run run' : ArchiveRun σ δ}
    (h : RunStep archive sha256 named objects run objects' run') : run.phase ≠ .finished := by
  intro hphase
  cases h with
  | begins phase => exact nomatch phase.symm.trans hphase
  | copies phase => exact nomatch phase.symm.trans hphase
  | verifies phase => exact nomatch phase.symm.trans hphase
  | verify phase => exact nomatch phase.symm.trans hphase
  | delete phase => exact nomatch phase.symm.trans hphase

theorem ReportStep.resultsChained (h : ReportStep archive sha256 named p q)
    (hp : p.ResultsChained) : q.ResultsChained := by
  have hresults : ∀ i result, p.run.verify i = .done result → result.IsChained := by
    rcases hp with hrun | ⟨_, hresults⟩
    · exact hrun.results
    · exact hresults
  rcases h.runStep with hsame | hstep | hfinished
  · unfold ReportingJob.ResultsChained
    rw [hsame]
    exact hp
  · rcases hp with hrun | ⟨hphase, _⟩
    · exact .inl (hstep.chained hrun)
    · exact absurd hphase hstep.unfinished
  · refine .inr ⟨congrArg ArchiveRun.phase hfinished, fun i result hdone ↦ ?_⟩
    rw [hfinished] at hdone
    exact hresults i result hdone

/-- What is told of an item is the result of its verification. -/
theorem ReportingJob.IsReachable.chained (hp : p.IsReachable archive sha256 named) :
    ∀ r ∈ p.itemDones.map Prod.snd, r.IsChained := by
  suffices hsuff : p.ResultsChained ∧
      ∀ r ∈ p.itemDones.map Prod.snd, ∃ i, p.run.verify i = .done r by
    intro r hr
    obtain ⟨i, hdone⟩ := hsuff.2 r hr
    rcases hsuff.1 with hrun | ⟨_, hresults⟩
    · exact hrun.results i r hdone
    · exact hresults i r hdone
  obtain ⟨request, uuid, source, bucketErrors, objects, hrun⟩ := hp
  induction hrun with
  | refl => exact ⟨.inl (ArchiveRun.start_chained _ _ _), fun r hr ↦ (nomatch hr)⟩
  | @tail p q _ hstep ih =>
      obtain ⟨hchained, htold⟩ := ih
      refine ⟨hstep.resultsChained hchained, fun r hr ↦ ?_⟩
      have hkept : r ∈ p.itemDones.map Prod.snd → ∃ i, q.run.verify i = .done r := by
        intro hold
        obtain ⟨i, hdone⟩ := htold r hold
        exact ⟨i, hstep.done_kept.2 i r hdone⟩
      rcases hstep.item_cases with ⟨_, hlog, _⟩ | ⟨_, _, _, _, _, _, hlog⟩ |
        ⟨i, n, result, hdone, _, _, _, hlog⟩
      · exact hkept (hlog ▸ hr)
      · exact hkept (hlog ▸ hr)
      · rw [hlog, List.map_append, List.mem_append] at hr
        rcases hr with hr | hr
        · exact hkept hr
        · obtain rfl := List.mem_singleton.mp hr
          exact ⟨i, hstep.done_kept.2 i _ hdone⟩

/-- All that an event of the job tells was told by the end of an item. -/
theorem ReportingJob.IsReachable.toldBy_subset (hp : p.IsReachable archive sha256 named)
    {e : ArchiveEvent} (he : e ∈ p.state.emitted) :
    ∀ r ∈ toldBy e, r ∈ p.itemDones.map Prod.snd := by
  obtain ⟨_, hitems, hdones⟩ := hp.attributed.told_eq
  intro r hr
  rcases List.mem_append.mp hr with hr | hr
  · obtain ⟨x, hx, rfl⟩ := List.mem_map.mp hr
    rw [hitems]
    exact List.mem_map_of_mem (List.mem_filterMap.mpr ⟨e, he, Option.mem_toList.mp hx⟩)
  · cases hresults : doneResults? e with
    | none =>
        rw [hresults] at hr
        exact nomatch hr
    | some results =>
        rw [hresults] at hr
        have hmem : results ∈ p.dones := hdones ▸ List.mem_filterMap.mpr ⟨e, he, hresults⟩
        obtain ⟨_, _, _, _, _, hrun⟩ := hp
        exact (accountsFor hrun hmem).itemResults.mem_iff.mpr hr

theorem ReportStep.itemDones_isPrefix (h : ReportStep archive sha256 named p q) :
    p.itemDones <+: q.itemDones := by
  rcases h.item_cases with ⟨_, hlog, _⟩ | ⟨_, _, _, _, _, _, hlog⟩ | ⟨_, _, _, _, _, _, _, hlog⟩
  · rw [hlog]
  · rw [hlog]
  · rw [hlog]
    exact List.prefix_append _ _

end Outcomes

/-! ## What the page has handled -/

theorem Stream.unkeyed_isPrefix {s : JobState ReportFields} {r : Stream ReportFields}
    (h : Tracks s r) (hfresh : r.phase = .unconnected → r.frames = []) :
    (∀ e ∈ r.events.map Prod.snd, e ∈ s.emitted) ∧
      (r.events.map Prod.snd).filter (fun e ↦ e.eventKey.isNone) <+:
        s.emitted.filter fun e ↦ e.eventKey.isNone := by
  have hcovers : ∀ {n : ℕ} {xs : List (ℕ × ArchiveEvent)},
      Covers JobEvent.eventKey (s.emitted.take n) (r.events ++ xs) →
      (∀ e ∈ r.events.map Prod.snd, e ∈ s.emitted) ∧
        (r.events.map Prod.snd).filter (fun e ↦ e.eventKey.isNone) <+:
          s.emitted.filter fun e ↦ e.eventKey.isNone := by
    intro n xs hcovers
    refine ⟨fun e he ↦ ?_, ?_⟩
    · obtain ⟨x, hx, rfl⟩ := List.mem_map.mp he
      obtain ⟨k, _, hget⟩ := hcovers.genuine x (List.mem_append_left _ hx)
      exact List.mem_of_mem_take (List.mem_of_getElem? hget)
    · have hunkeyed := hcovers.unkeyed
      rw [List.map_append, List.filter_append] at hunkeyed
      have htake := List.take_prefix n s.emitted
      exact List.IsPrefix.trans ⟨_, hunkeyed⟩ (htake.filter _)
  unfold Tracks at h
  cases hphase : r.phase with
  | unconnected =>
      have hnone : r.events = [] := by rw [Stream.events, hfresh hphase, List.filterMap_nil]
      rw [hnone]
      refine ⟨fun e he ↦ absurd he List.not_mem_nil, ?_⟩
      exact List.nil_prefix
  | waiting =>
      simp only [hphase] at h
      exact hcovers ((List.append_nil r.events).symm ▸ h.2)
  | sending events pending finished =>
      simp only [hphase] at h
      obtain ⟨asked, _, hasked, _⟩ := h
      exact hcovers hasked
  | ended =>
      simp only [hphase] at h
      refine @hcovers s.emitted.length [] ?_
      rw [List.take_length, List.append_nil]
      exact h.2

theorem Tracks.workSteps {s s' : JobState ReportFields} {r : Stream ReportFields}
    (h : Tracks s r) (hrun : Relation.ReflTransGen WorkStep s s') : Tracks s' r := by
  induction hrun with
  | refl => exact h
  | tail _ hstep ih => exact ih.work hstep

theorem ReadStep.frames_isPrefix {s : JobState ReportFields} {r r' : Stream ReportFields}
    (h : ReadStep s r r') (hfresh : r.phase = .unconnected → r.frames = []) :
    r.frames <+: r'.frames ∧ r'.phase ≠ .unconnected := by
  cases h with
  | connect unconnected =>
      rw [hfresh unconnected]
      refine ⟨?_, nofun⟩
      exact List.nil_prefix
  | poll => exact ⟨List.prefix_refl _, nofun⟩
  | send => exact ⟨List.prefix_append _ _, nofun⟩
  | @pause events sent =>
      unfold Stream.pause
      generalize (if events = [] then r.idle + 1 else 0) = idle
      by_cases hidle : 40 ≤ idle
      · simp [hidle]
      · simp [hidle]
  | stop => exact ⟨List.prefix_refl _, nofun⟩

/-- The events that the page has handled since it last connected. -/
def PageRun.handledEvents (w : PageRun σ δ) : List ArchiveEvent :=
  ((w.reader.frames.take w.handled).filterMap Frame.event?).map Prod.snd

theorem PageRun.handledEvents_isPrefix (w : PageRun σ δ) :
    w.handledEvents <+: w.reader.events.map Prod.snd := by
  have htake := List.take_prefix w.handled w.reader.frames
  exact (htake.filterMap _).map _

theorem filterMap_filter_of_isSome {α β : Type*} {f : α → Option β} {P : α → Bool}
    {l : List α} (h : ∀ a ∈ l, (f a).isSome → P a = true) :
    (l.filter P).filterMap f = l.filterMap f := by
  induction l with
  | nil => rfl
  | cons a l ih =>
      have htail := ih fun b hb ↦ h b (List.mem_cons_of_mem _ hb)
      cases hP : P a with
      | true => rw [List.filter_cons_of_pos hP, List.filterMap_cons, List.filterMap_cons, htail]
      | false =>
          have hnone : f a = none := by
            rw [← Option.not_isSome_iff_eq_none]
            exact fun hsome ↦ Bool.false_ne_true (hP ▸ h a List.mem_cons_self hsome)
          rw [List.filter_cons_of_neg (by simp [hP]), List.filterMap_cons, hnone, htail]

/-- The page has handled the first outcomes of the job. -/
theorem PageRun.outcomes_isPrefix [DecidableEq σ] {archive : σ} {sha256 : List UInt8 → δ}
    {named : Location σ → ObjectHead → List UInt8} {w : PageRun σ δ}
    (hreachable : w.job.IsReachable archive sha256 named)
    (htracks : Tracks w.job.state w.reader)
    (hfresh : w.reader.phase = .unconnected → w.reader.frames = []) :
    (∀ e ∈ w.handledEvents, e ∈ w.job.state.emitted) ∧ ∃ rest,
      (∀ e ∈ rest, (∃ d ∈ w.handledEvents, (doneResults? d).isSome) → ¬HasOutcome e) ∧
      w.job.copyDones = (w.handledEvents ++ rest).filterMap copyDone? ∧
      w.job.itemDones = (w.handledEvents ++ rest).filterMap itemDone? := by
  obtain ⟨hmem, hunkeyed⟩ := Stream.unkeyed_isPrefix htracks hfresh
  have hhandled : ∀ e ∈ w.handledEvents, e ∈ w.job.state.emitted :=
    fun e he ↦ hmem e (w.handledEvents_isPrefix.subset he)
  have hsealed := hreachable.sealed
  obtain ⟨rest, hrest⟩ := (w.handledEvents_isPrefix.filter fun e ↦ e.eventKey.isNone).trans hunkeyed
  have hkept : ∀ {β : Type} {f : ArchiveEvent → Option β}, (∀ e, (f e).isSome → HasOutcome e) →
      w.job.state.emitted.filterMap f = (w.handledEvents ++ rest).filterMap f := by
    intro β f hf
    have hnone : ∀ e ∈ w.job.state.emitted, (f e).isSome → e.eventKey.isNone = true :=
      fun e he hsome ↦ by rw [hsealed.unkeyed e he (hf e hsome)]; rfl
    rw [← filterMap_filter_of_isSome hnone, ← hrest, List.filterMap_append, List.filterMap_append,
      filterMap_filter_of_isSome fun e he ↦ hnone e (hhandled e he)]
  obtain ⟨hcopies, hitems, _⟩ := hreachable.attributed.told_eq
  refine ⟨hhandled, rest, fun e he ↦ ?_, ?_, ?_⟩
  · rintro ⟨d, hd, hdone⟩
    have hlast := hsealed.last.filter fun e ↦ e.eventKey.isNone
    rw [← hrest, List.pairwise_append] at hlast
    have hunkeyed : d.eventKey.isNone = true := by
      rw [hsealed.unkeyed d (hhandled d hd) (.inr (.inr hdone))]
      rfl
    exact hlast.2.2 d (List.mem_filter.mpr ⟨hd, hunkeyed⟩) e he hdone
  · exact hcopies.trans (hkept fun e hsome ↦ .inl hsome)
  · exact hitems.trans (hkept fun e hsome ↦ .inr (.inl hsome))

/-! ## Invariants of the page -/

section Invariant

variable [DecidableEq σ] (archive : σ) (sha256 : List UInt8 → δ)
  (named : Location σ → ObjectHead → List UInt8)

/-- The page, compared with what it has handled and with what the job has told. -/
structure PageRun.Sound (rows : List DeleteItem) (w : PageRun σ δ) : Prop where
  reachable : w.job.IsReachable archive sha256 named
  tracks : Tracks w.job.state w.reader
  fresh : w.reader.phase = .unconnected → w.reader.frames = []
  handled : w.handled ≤ w.reader.frames.length
  counters : w.page.counters =
    countersOf (w.handledEvents.filterMap copyDone?) (w.handledEvents.filterMap itemDone?)
  received : w.page.receivedDone = true → ∃ e ∈ w.handledEvents, (doneResults? e).isSome
  begun : w.begun.Sublist rows
  past : ∀ row ∈ rows, row ∉ w.begun → ∃ r ∈ w.past, r.deletes row = true
  pastChained : ∀ r ∈ w.past, r.IsChained
  left : ∃ removed, w.page.deleteRows = remaining w.begun removed ∧
    (∀ r ∈ removed, r ∈ w.job.itemDones.map Prod.snd) ∧
    ∀ e ∈ w.handledEvents, ∀ r ∈ toldBy e, r ∈ removed

variable {archive sha256 named} {rows : List DeleteItem} {w w' : PageRun σ δ}

omit [DecidableEq σ] in
/-- Another reader that has sent the same frames and maybe more. -/
theorem PageRun.handledEvents_of_isPrefix {reader : Stream ReportFields}
    (hhandled : w.handled ≤ w.reader.frames.length) (h : w.reader.frames <+: reader.frames) :
    ({ w with reader := reader } : PageRun σ δ).handledEvents = w.handledEvents := by
  obtain ⟨more, hmore⟩ := h
  unfold handledEvents
  rw [← hmore, List.take_append_of_le_length hhandled]

omit [DecidableEq σ] in
theorem PageRun.handledEvents_handle {frame : Frame ReportFields}
    (next : w.reader.frames[w.handled]? = some frame) :
    (w.handle frame).handledEvents = w.handledEvents ++ frame.event?.toList.map Prod.snd := by
  unfold handledEvents handle
  rw [List.take_add_one, next, List.filterMap_append, List.map_append]
  cases frame <;> rfl

theorem PageRun.Sound.work (h : w.Sound archive sha256 named rows) {job : ReportingJob σ δ}
    (step : ReportStep archive sha256 named w.job job) :
    ({ w with job := job } : PageRun σ δ).Sound archive sha256 named rows := by
  obtain ⟨removed, hrows, htold, hhandled⟩ := h.left
  refine ⟨h.reachable.step step, h.tracks.workSteps step.workSteps, h.fresh, h.handled,
    h.counters, h.received, h.begun, h.past, h.pastChained, removed, hrows, fun r hr ↦ ?_,
    hhandled⟩
  exact (step.itemDones_isPrefix.map Prod.snd).subset (htold r hr)

theorem PageRun.Sound.read (h : w.Sound archive sha256 named rows)
    {reader : Stream ReportFields} (step : ReadStep w.job.state w.reader reader) :
    ({ w with reader := reader } : PageRun σ δ).Sound archive sha256 named rows := by
  obtain ⟨hmore, hconnected⟩ := step.frames_isPrefix h.fresh
  have hevents := handledEvents_of_isPrefix h.handled hmore
  obtain ⟨removed, hrows, htold, hhandled⟩ := h.left
  refine ⟨h.reachable, h.tracks.read h.reachable.attributed.logged step,
    fun hphase ↦ absurd hphase hconnected, h.handled.trans hmore.length_le, ?_, ?_, h.begun,
    h.past, h.pastChained, removed, hrows, htold, ?_⟩
  · rw [hevents]
    exact h.counters
  · rw [hevents]
    exact h.received
  · rw [hevents]
    exact hhandled

theorem PageRun.Sound.handle (h : w.Sound archive sha256 named rows)
    {frame : Frame ReportFields} (next : w.reader.frames[w.handled]? = some frame) :
    (w.handle frame).Sound archive sha256 named rows := by
  obtain ⟨hlt, _⟩ := List.getElem?_eq_some_iff.mp next
  obtain ⟨removed, hrows, htold, hhandled⟩ := h.left
  cases frame with
  | event n e =>
      have hevents : (w.handle (.event n e)).handledEvents = w.handledEvents ++ [e] :=
        handledEvents_handle next
      have hemitted : e ∈ w.job.state.emitted := by
        have hmem := (Stream.unkeyed_isPrefix h.tracks h.fresh).1
        refine hmem e (List.mem_map.mpr ⟨(n, e), ?_, rfl⟩)
        exact List.mem_filterMap.mpr ⟨_, List.mem_of_getElem? next, rfl⟩
      refine ⟨h.reachable, h.tracks, h.fresh, hlt, ?_, fun hdone ↦ ?_, h.begun, h.past,
        h.pastChained, removed ++ toldBy e, ?_, fun r hr ↦ ?_, fun d hd r hr ↦ ?_⟩
      · rw [hevents, List.filterMap_append, List.filterMap_append]
        change (w.page.handle e).counters = _
        rw [w.page.handle_counters e h.counters]
        cases hcopy : copyDone? e <;> cases hitem : itemDone? e <;> simp [hcopy, hitem]
      · rw [hevents]
        rcases w.page.handle_receivedDone e hdone with hdone | ⟨results, hresults⟩
        · obtain ⟨d, hd, hsome⟩ := h.received hdone
          exact ⟨d, List.mem_append_left _ hd, hsome⟩
        · exact ⟨e, List.mem_append_right _ List.mem_cons_self, hresults ▸ rfl⟩
      · change (w.page.handle e).deleteRows = remaining w.begun (removed ++ toldBy e)
        rw [w.page.handle_rows e, hrows, remaining_remaining]
      · rcases List.mem_append.mp hr with hr | hr
        · exact htold r hr
        · exact h.reachable.toldBy_subset hemitted r hr
      · rw [hevents] at hd
        rcases List.mem_append.mp hd with hd | hd
        · exact List.mem_append_left _ (hhandled d hd r hr)
        · obtain rfl := List.mem_singleton.mp hd
          exact List.mem_append_right _ hr
  | archiveJob jobId total =>
      have hevents : (w.handle (.archiveJob jobId total)).handledEvents = w.handledEvents :=
        (handledEvents_handle next).trans (List.append_nil _)
      exact ⟨h.reachable, h.tracks, h.fresh, hlt, hevents ▸ h.counters, hevents ▸ h.received,
        h.begun, h.past, h.pastChained, removed, hrows, htold, hevents ▸ hhandled⟩
  | heartbeat =>
      have hevents : (w.handle .heartbeat).handledEvents = w.handledEvents :=
        (handledEvents_handle next).trans (List.append_nil _)
      exact ⟨h.reachable, h.tracks, h.fresh, hlt, hevents ▸ h.counters, hevents ▸ h.received,
        h.begun, h.past, h.pastChained, removed, hrows, htold, hevents ▸ hhandled⟩

/-- The page connects to the same job again, or is turned down. -/
theorem PageRun.Sound.restart (h : w.Sound archive sha256 named rows) {page : ArchivePage}
    (hrows : page.deleteRows = w.page.deleteRows) (hcounters : page.counters = .zero)
    (hreceived : page.receivedDone = false) :
    ({ w with page := page, reader := .start, handled := 0 } : PageRun σ δ).Sound
      archive sha256 named rows := by
  obtain ⟨removed, hleft, htold, _⟩ := h.left
  refine ⟨h.reachable, trivial, fun _ ↦ rfl, le_rfl, hcounters, fun hdone ↦ ?_, h.begun, h.past,
    h.pastChained, removed, hrows.trans hleft, htold, fun e he ↦ (nomatch he)⟩
  exact nomatch hreceived.symm.trans hdone

theorem Serves.isReachable {job : ReportingJob σ δ}
    (h : Serves archive sha256 named rows job) : job.IsReachable archive sha256 named := by
  rcases h with ⟨request, uuid, source, bucketErrors, objects, _, rfl⟩ | ⟨hreachable, _⟩
  · exact ⟨request, uuid, source, bucketErrors, objects, .refl⟩
  · exact hreachable

theorem PageRun.Sound.told (h : w.Sound archive sha256 named rows) :
    w.page.deleteRows.Sublist rows ∧ (∀ r ∈ w.told, r.IsChained) ∧
      ∀ row ∈ rows, row ∉ w.page.deleteRows → ∃ r ∈ w.told, r.deletes row = true := by
  obtain ⟨removed, hleft, htold, _⟩ := h.left
  refine ⟨?_, fun r hr ↦ ?_, fun row hrow hgone ↦ ?_⟩
  · rw [hleft]
    exact List.filter_sublist.trans h.begun
  · rcases List.mem_append.mp hr with hr | hr
    · exact h.pastChained r hr
    · exact h.reachable.chained r hr
  · by_cases hbegun : row ∈ w.begun
    · rw [hleft, mem_remaining] at hgone
      obtain ⟨r, hr, hdeletes⟩ : ∃ r ∈ removed, r.deletes row = true := by
        by_contra hnone
        push Not at hnone
        exact hgone ⟨hbegun, fun r hr ↦ Bool.eq_false_iff.mpr (hnone r hr)⟩
      exact ⟨r, List.mem_append_right _ (htold r hr), hdeletes⟩
    · obtain ⟨r, hr, hdeletes⟩ := h.past row hrow hbegun
      exact ⟨r, List.mem_append_left _ hr, hdeletes⟩

theorem PageRun.Sound.connect (h : w.Sound archive sha256 named rows) {job : ReportingJob σ δ}
    (hjob : job.IsReachable archive sha256 named) :
    (PageRun.connect w.page job w.told).Sound archive sha256 named rows := by
  obtain ⟨hsublist, hchained, hgone⟩ := h.told
  exact ⟨hjob, trivial, fun _ ↦ rfl, le_rfl, rfl, fun hdone ↦ (nomatch hdone), hsublist, hgone,
    hchained, [], (remaining_nil _).symm, fun r hr ↦ (nomatch hr), fun e he ↦ (nomatch he)⟩

theorem PageStep.sound (hstep : PageStep archive sha256 named w w')
    (h : w.Sound archive sha256 named rows) : w'.Sound archive sha256 named rows := by
  cases hstep with
  | work step => exact h.work step
  | read step => exact h.read step
  | handles running next => exact h.handle next
  | reconnects => exact h.restart rfl rfl rfl
  | refused => exact h.restart rfl rfl rfl
  | connects idle unnamed left serves => exact h.connect serves.isReachable
  | _ =>
      exact ⟨h.reachable, h.tracks, h.fresh, h.handled, h.counters, h.received, h.begun, h.past,
        h.pastChained, h.left⟩

/-! ## What the page shows -/

/-- The page as the job and its storage have it. -/
structure PageRun.Follows (rows : List DeleteItem) (w : PageRun σ δ) : Prop where
  sublist : w.page.deleteRows.Sublist rows
  deleted : ∀ row ∈ rows, row ∉ w.page.deleteRows →
    ∃ r ∈ w.told, r.deletes row = true ∧ r.archiveVerified = true ∧ r.copySuccess = true
  copies : w.page.counters.copied + w.page.counters.skipped + w.page.counters.copyErrors ≤
    w.job.total
  items : w.page.counters.deleted + w.page.counters.failed ≤ w.job.total
  verified : w.page.counters.verified ≤ w.job.total
  done : w.page.receivedDone = true → ∃ results ∈ w.job.dones,
    w.page.deleteRows = remaining w.begun results ∧
    w.page.counters.copied + w.page.counters.skipped + w.page.counters.copyErrors =
      w.job.total ∧
    w.page.counters.verified = (results.countP fun r ↦ r.archiveVerified) ∧
    w.page.counters.deleted = (archiveDeletionCounts results).deletedCount ∧
    w.page.counters.failed = (archiveDeletionCounts results).archivedNotDeletedCount ∧
    w.page.counters.copyErrors = (archiveDeletionCounts results).copyFailedCount

omit [DecidableEq σ] in
theorem ReportingJob.TellsOnce.length_le {p : ReportingJob σ δ} (h : p.TellsOnce) :
    p.copyDones.length ≤ p.total ∧ p.itemDones.length ≤ p.total := by
  have hbound : ∀ ns : List ℕ, ns.Nodup → (∀ n ∈ ns, 1 ≤ n ∧ n ≤ p.total) →
      ns.length ≤ p.total := by
    intro ns hnodup hns
    have hsub : ns ⊆ List.range' 1 p.total := fun n hn ↦ by
      obtain ⟨hpos, hle⟩ := hns n hn
      rw [List.mem_range'_1]
      omega
    have hle := (hnodup.subperm hsub).length_le
    rwa [List.length_range'] at hle
  have hcopies := hbound _ h.copies.1 h.copies.2
  have hitems := hbound _ h.items.1 h.items.2
  rw [List.length_map] at hcopies hitems
  exact ⟨hcopies, hitems⟩

theorem countersOf_copies (copies : List (ℕ × (Str × Bool × Bool)))
    (items : List (ℕ × ArchiveResult)) :
    (countersOf copies items).copied + (countersOf copies items).skipped +
      (countersOf copies items).copyErrors = copies.length := by
  induction copies with
  | nil => rfl
  | cons c copies ih =>
      obtain ⟨n, key, success, skipped⟩ := c
      simp only [countersOf, List.countP_cons, List.length_cons] at ih ⊢
      cases success <;> cases skipped <;> simp <;> omega

theorem countersOf_items (copies : List (ℕ × (Str × Bool × Bool)))
    (items : List (ℕ × ArchiveResult)) :
    (countersOf copies items).deleted + (countersOf copies items).failed ≤ items.length := by
  induction items with
  | nil => exact le_rfl
  | cons c items ih =>
      simp only [countersOf, List.countP_cons, List.length_cons] at ih ⊢
      cases c.2.deleteSuccess <;> cases c.2.copySuccess <;> simp <;> omega

omit [DecidableEq σ] in
/-- Once all is told the counters are those of the response. -/
theorem countersOf_accounts {p : ReportingJob σ δ} {results : List ArchiveResult}
    (h : p.AccountsFor results) :
    (countersOf p.copyDones p.itemDones).verified = (results.countP fun r ↦ r.archiveVerified) ∧
      (countersOf p.copyDones p.itemDones).deleted =
        (archiveDeletionCounts results).deletedCount ∧
      (countersOf p.copyDones p.itemDones).failed =
        (archiveDeletionCounts results).archivedNotDeletedCount ∧
      (countersOf p.copyDones p.itemDones).copyErrors =
        (archiveDeletionCounts results).copyFailedCount := by
  have hitems : ∀ P : ArchiveResult → Bool,
      (p.itemDones.countP fun c ↦ P c.2) = results.countP P := by
    intro P
    rw [← h.itemResults.countP_eq P, List.countP_map]
    rfl
  have hcopies : (p.copyDones.countP fun c ↦ !c.2.2.1) = results.countP fun r ↦ !r.copySuccess := by
    have hperm := h.copyResults.countP_eq fun c ↦ !c.2.1
    rw [List.countP_map, List.countP_map] at hperm
    exact hperm
  refine ⟨hitems _, hitems _, ?_, hcopies⟩
  refine (hitems fun r ↦ !r.deleteSuccess && r.copySuccess).trans (List.countP_congr fun r _ ↦ ?_)
  rw [ArchiveResult.isCounted, Bool.and_comm]

/-- The page has handled no more outcomes than the job has items. -/
theorem PageRun.Sound.handled_le (h : w.Sound archive sha256 named rows) :
    (w.handledEvents.filterMap copyDone?).length ≤ w.job.total ∧
      (w.handledEvents.filterMap itemDone?).length ≤ w.job.total := by
  obtain ⟨_, rest, _, hcopies, hitems⟩ :=
    PageRun.outcomes_isPrefix h.reachable h.tracks h.fresh
  have hreachable := h.reachable
  obtain ⟨_, _, _, _, _, hjob⟩ := hreachable
  obtain ⟨hcopyBound, hitemBound⟩ := (ReportingJob.tellsOnce hjob).length_le
  rw [hcopies, List.filterMap_append, List.length_append] at hcopyBound
  rw [hitems, List.filterMap_append, List.length_append] at hitemBound
  exact ⟨(Nat.le_add_right _ _).trans hcopyBound, (Nat.le_add_right _ _).trans hitemBound⟩

/-- An attempt that has received the end has handled all that counts. -/
theorem PageRun.Sound.all_handled (h : w.Sound archive sha256 named rows)
    (hdone : w.page.receivedDone = true) :
    ∃ d ∈ w.handledEvents, ∃ results ∈ w.job.dones, doneResults? d = some results ∧
      w.handledEvents.filterMap copyDone? = w.job.copyDones ∧
      w.handledEvents.filterMap itemDone? = w.job.itemDones := by
  obtain ⟨hhandled, rest, hrest, hcopies, hitems⟩ :=
    PageRun.outcomes_isPrefix h.reachable h.tracks h.fresh
  obtain ⟨d, hd, hsome⟩ := h.received hdone
  obtain ⟨results, hresults⟩ := Option.isSome_iff_exists.mp hsome
  have hmem : results ∈ w.job.dones := by
    rw [h.reachable.attributed.told_eq.2.2]
    exact List.mem_filterMap.mpr ⟨d, hhandled d hd, hresults⟩
  -- Nothing that counts comes after the end.
  have hnone : ∀ {β : Type} {f : ArchiveEvent → Option β}, (∀ e, (f e).isSome → HasOutcome e) →
      rest.filterMap f = [] := by
    intro β f hf
    apply List.filterMap_eq_nil_iff.mpr
    intro e he
    apply Option.not_isSome_iff_eq_none.mp
    exact fun hout ↦ hrest e he ⟨d, hd, hsome⟩ (hf e hout)
  rw [List.filterMap_append, hnone fun e hout ↦ .inl hout, List.append_nil] at hcopies
  rw [List.filterMap_append, hnone fun e hout ↦ .inr (.inl hout), List.append_nil] at hitems
  exact ⟨d, hd, results, hmem, hresults, hcopies.symm, hitems.symm⟩

/-- Whatever connections are lost and made again, no row is lost unless its object was
verified and deleted, and nothing is counted twice; and an attempt that has received the end
shows the rows and the counts of the results. -/
theorem archivePage_follows {page : ArchivePage} {job : ReportingJob σ δ}
    (hserves : Serves archive sha256 named page.deleteRows job)
    (hrun : Relation.ReflTransGen (PageStep archive sha256 named) (.connect page job []) w) :
    w.Follows page.deleteRows := by
  have hsound : w.Sound archive sha256 named page.deleteRows := by
    induction hrun with
    | refl =>
        exact ⟨hserves.isReachable, trivial, fun _ ↦ rfl, le_rfl, rfl, fun hdone ↦ (nomatch hdone),
          .refl _, fun row hrow hgone ↦ absurd hrow hgone, fun r hr ↦ (nomatch hr), [],
          (remaining_nil _).symm, fun r hr ↦ (nomatch hr), fun e he ↦ (nomatch he)⟩
    | tail _ hstep ih => exact hstep.sound ih
  obtain ⟨hsublist, hchained, hgone⟩ := hsound.told
  obtain ⟨hcopyBound, hitemBound⟩ := hsound.handled_le
  refine ⟨hsublist, fun row hrow hleft ↦ ?_, ?_, ?_, ?_, fun hdone ↦ ?_⟩
  · obtain ⟨r, hr, hdeletes⟩ := hgone row hrow hleft
    obtain ⟨hattempted, hverified, hcopied⟩ := hchained r hr
    have hsuccess := hattempted (Bool.and_eq_true_iff.mp hdeletes).1
    exact ⟨r, hr, hdeletes, hverified hsuccess, hcopied (hverified hsuccess)⟩
  · rw [hsound.counters, countersOf_copies]
    exact hcopyBound
  · rw [hsound.counters]
    exact (countersOf_items _ _).trans hitemBound
  · rw [hsound.counters]
    exact List.countP_le_length.trans hitemBound
  · obtain ⟨d, hd, results, hmem, hresults, hcopies, hitems⟩ := hsound.all_handled hdone
    have hreachable := hsound.reachable
    obtain ⟨_, _, _, _, _, hjob⟩ := hreachable
    have haccounts := ReportingJob.accountsFor hjob hmem
    have hcounters := hsound.counters
    rw [hcopies, hitems] at hcounters
    obtain ⟨removed, hleft, htold, hremoved⟩ := hsound.left
    refine ⟨results, hmem, ?_, ?_, ?_⟩
    · rw [hleft]
      apply remaining_congr
      refine fun r ↦ ⟨fun hr ↦ ?_, fun hr ↦ hremoved d hd r ?_⟩
      · exact haccounts.itemResults.mem_iff.mp (htold r hr)
      · exact List.mem_append_right _ (hresults ▸ hr)
    · rw [hcounters, countersOf_copies]
      have hlength := haccounts.copyNumbers.length_eq
      rwa [List.length_map, List.length_range'] at hlength
    · rw [hcounters]
      exact countersOf_accounts haccounts

end Invariant

/-! ## The page of two school files -/

def schoolRow : DeleteItem := ⟨"school".toList, "file".toList, none, .blank⟩

def lostRow : DeleteItem := ⟨"school".toList, "lost".toList, none, .blank⟩

theorem PageRun.works [DecidableEq σ] {archive : σ} {sha256 : List UInt8 → δ}
    {named : Location σ → ObjectHead → List UInt8} {w : PageRun σ δ} {job : ReportingJob σ δ}
    (hrun : Relation.ReflTransGen (ReportStep archive sha256 named) w.job job) :
    Relation.ReflTransGen (PageStep archive sha256 named) w { w with job := job } := by
  induction hrun with
  | refl => exact .refl
  | tail _ hstep ih => exact ih.tail (.work hstep)

/-- The first connection is lost, and the job goes on to its end.  The page connects to it
again, is told of everything, and takes the row of the deleted file off its list. -/
theorem archivePage_follows_school :
    ∃ w : PageRun Str (List UInt8), w.page.deleteRows = [lostRow] ∧
      w.page.counters = ⟨1, 0, 1, 1, 1, 0⟩ ∧ w.page.receivedDone = true ∧
      w.Follows [schoolRow, lostRow] := by
  obtain ⟨p, hwork, hitems, hlog, _⟩ := exists_schoolJob_done
  have hserves : Serves "wasabi".toList id (fun _ _ ↦ [1])
      (ArchivePage.load [schoolRow, lostRow]).deleteRows (.start schoolRequest "1".toList
        "do".toList (fun _ ↦ none) schoolSystem.objects) := .inl ⟨_, _, _, _, _, rfl, rfl⟩
  have hpoll : ∀ {r : Stream ReportFields}, r.phase = .waiting → r.cursor = 0 →
      ReadStep p.state r { r with
        phase := .sending schoolEvents schoolEvents p.state.finished } := by
    intro r hwaiting hcursor
    have hafter : p.state.log.after r.cursor = schoolEvents := by rw [hcursor, hlog]
    have hstep := ReadStep.poll (s := p.state) hwaiting
    rwa [hafter] at hstep
  refine ⟨?w, ?rows, ?counters, ?done, archivePage_follows hserves ?run⟩
  case run =>
    refine .head (.read (.connect rfl)) ?_
    refine .head (.handles rfl rfl) ?_
    refine .head (.stops rfl) ?_
    apply (PageRun.works hwork).trans
    refine .head (.reconnects rfl rfl rfl ?_) ?_
    · change ∀ row ∈ [schoolRow, lostRow], row.names ∈ p.run.items
      rw [hitems]
      decide
    refine .head (.read (.connect rfl)) ?_
    refine .head (.read (hpoll rfl rfl)) ?_
    refine .head (.read (.send rfl)) ?_
    refine .head (.read (.send rfl)) ?_
    refine .head (.handles rfl rfl) ?_
    refine .head (.read (.send rfl)) ?_
    refine .head (.handles rfl rfl) ?_
    refine .head (.handles rfl rfl) ?_
    refine .head (.handles rfl rfl) ?_
    refine .head (.read (.send rfl)) ?_
    refine .head (.read (.send rfl)) ?_
    refine .head (.handles rfl rfl) ?_
    refine .head (.handles rfl rfl) ?_
    refine .head (.read (.send rfl)) ?_
    refine .head (.read (.send rfl)) ?_
    refine .head (.read (.send rfl)) ?_
    refine .head (.handles rfl rfl) ?_
    refine .head (.handles rfl rfl) ?_
    refine .head (.handles rfl rfl) ?_
    exact .refl
  case rows => rfl
  case counters => rfl
  case done => rfl

end StorageReconciler
