import Mathlib.Algebra.Order.Ring.Rat
import StorageReconciler.ArchiveRuns
import StorageReconciler.DeleteObjects
import StorageReconciler.JobStream

/-!
# What an archive job reports

The workers of an archive job tell how far their items are: the bytes uploaded, the
phases of the verification, and how each item ended.  All of this goes to the log of
the job through callbacks, each of which passes on what it is given of the item.
-/

namespace StorageReconciler

open Strings Workers CoalescedLog

/-! ## The callbacks -/

/-- The fields of an event besides the bucket, the key and the phase.  Percentages,
tallies and file names are left out. -/
inductive ReportFields where
  | archivePhase (message : Str)
  | copyProgress (completed total : ℕ) (success skipped : Bool)
  | archiveBytes (transferred : ℤ) (totalBytes : ℕ)
  | archiveProgress (completed total transferred totalBytes : ℕ) (result : Option ArchiveResult)
  | deleteProgress (completed total : ℕ) (results : List DeleteResult)
  | done (results : List ArchiveResult)

abbrev ArchiveEvent := JobEvent ReportFields

/-- Seconds between two reports of one upload. -/
def itemProgressMinInterval : ℚ := 1 / 5

/-- What the callback of an upload keeps between its calls. -/
structure CallbackState where
  transferred : ℤ
  lastEmit : ℚ

def makeCallback : CallbackState := ⟨0, 0⟩

/-- The callback of an upload at the time `now`, with what it passes on. -/
def CallbackState.callback (state : CallbackState) (totalBytes : ℕ) (now : ℚ)
    (bytesAmount : ℤ) : CallbackState × Option (ℤ × ℕ) :=
  let transferred := state.transferred + bytesAmount
  if itemProgressMinInterval ≤ now - state.lastEmit ∨ (totalBytes : ℤ) ≤ transferred then
    (⟨transferred, now⟩, some (transferred, totalBytes))
  else (⟨transferred, state.lastEmit⟩, none)

/-- The `on_item_progress` of the route: of the item it is given the key alone. -/
def onItemProgress (key : Str) (transferred : ℤ) (totalBytes : ℕ) : ArchiveEvent :=
  ⟨"archive_bytes".toList, .fields none (some key) none (.archiveBytes transferred totalBytes)⟩

def onCopyProgress (completed total : ℕ) (key : Str) (success skipped : Bool) : ArchiveEvent :=
  ⟨"copy_progress".toList,
    .fields none (some key) none (.copyProgress completed total success skipped)⟩

def onDeleteProgress (completed total : ℕ) (bucket : Str) (results : List DeleteResult) :
    ArchiveEvent :=
  ⟨"delete_progress".toList,
    .fields (some bucket) none none (.deleteProgress completed total results)⟩

/-- `progress`, with the bucket and the key that the result names, and `on_archive_progress`. -/
def progress (phase : Str) (index total : ℕ) (item : Str × Str) (result : ArchiveResult)
    (transferred totalBytes : ℕ) (completed : Option ℕ) : ArchiveEvent :=
  ⟨"archive_progress".toList, .fields (some item.1) (some item.2) (some phase)
    (.archiveProgress (completed.getD index) total transferred totalBytes
      (if phase = "item_done".toList then some result else none))⟩

def preparePhase : ArchiveEvent :=
  ⟨"archive_phase".toList, .fields none none (some "prepare".toList)
    (.archivePhase "Menyiapkan arsip dan mengecek file yang sudah ada...".toList)⟩

def reportPhase : ArchiveEvent :=
  ⟨"archive_phase".toList, .fields none none (some "report".toList)
    (.archivePhase "Membuat report dan presigned URL...".toList)⟩

def doneEvent (results : List ArchiveResult) : ArchiveEvent :=
  ⟨"done".toList, .fields none none none (.done results)⟩

/-! ## The workers -/

/-- Whether `copy_one` has counted its item, and has told so. -/
inductive CopyReport where
  | due
  | counted (completed : ℕ)
  | told

/-- What `verify_and_delete_one` has told of its item. -/
inductive VerifyReport where
  | unreported
  | checking
  | hashing (phase : Str) (size : ℕ) (lastEmit : ℚ)
  | deleting
  | counted (completed : ℕ)
  | itemDone (completed : ℕ)
  | ended

/-- Seconds between two reports of one download. -/
def digestMinInterval : ℚ := 1 / 4

/-- The content whose digest is taken, and the phase told meanwhile. -/
def VerifyStatus.digesting {δ : Type*} : VerifyStatus δ → Option (Str × ObjectHead)
  | sized source => some ("verify_source".toList, source)
  | hashed source _ => some ("verify_archive".toList, source)
  | _ => none

/-- What has been told when `verify_and_delete_one` goes on from a status. -/
inductive ToldBefore {δ : Type*} (copied : CopyResult) :
    VerifyReport → VerifyStatus δ → VerifyStatus δ → Prop where
  | notCopied {result : ArchiveResult} (failed : copied.success = false) :
      ToldBefore copied .unreported .waiting (.done result)
  | headSource {source : ObjectHead} : ToldBefore copied .checking .waiting (.headed source)
  | headArchive {source : ObjectHead} :
      ToldBefore copied .checking (.headed source) (.sized source)
  | readSource {source : ObjectHead} {digest : ℕ × δ} {lastEmit : ℚ} :
      ToldBefore copied (.hashing "verify_source".toList digest.1 lastEmit) (.sized source)
        (.hashed source digest)
  | readArchive {source : ObjectHead} {digest : ℕ × δ} {lastEmit : ℚ} :
      ToldBefore copied (.hashing "verify_archive".toList digest.1 lastEmit)
        (.hashed source digest) (.compared source)
  | headAgain {source : ObjectHead} {size : ℕ} {lastEmit : ℚ} :
      ToldBefore copied (.hashing "verify_archive".toList size lastEmit) (.compared source)
        (.approved source)
  | fails {report : VerifyReport} {status : VerifyStatus δ} {result : ArchiveResult}
      (success : copied.success = true) (begun : report ≠ .unreported) :
      ToldBefore copied report status (.done result)

/-- An event, and the item whose worker emitted it. -/
structure Emission where
  owner : Option (Str × Str)
  event : ArchiveEvent

/-- How far `work` is: nothing told yet, archiving, writing the report, or at its end. -/
inductive WorkStage where
  | preparing
  | archiving
  | reporting
  | ended
  deriving DecidableEq

/-- A job, the storage, and the callbacks and counts of its workers.  What the workers
emitted is kept beside the log, which does not know them. -/
structure ReportingJob (σ δ : Type*) where
  stage : WorkStage
  objects : Objects σ
  run : ArchiveRun σ δ
  callback : ℕ → CallbackState
  copyCompleted : ℕ
  copyReport : ℕ → CopyReport
  verifyCompleted : ℕ
  verifyReport : ℕ → VerifyReport
  state : JobState ReportFields
  emissions : List Emission

variable {σ δ : Type*}

namespace ReportingJob

def start (request : JobRequest) (uuid : Str) (source : σ) (bucketErrors : Str → Option Str)
    (objects : Objects σ) : ReportingJob σ δ where
  stage := .preparing
  objects := objects
  run := .start request.items source bucketErrors
  callback _ := makeCallback
  copyCompleted := 0
  copyReport _ := .due
  verifyCompleted := 0
  verifyReport _ := .unreported
  state := ⟨request.job uuid, .empty, [], .working⟩
  emissions := []

variable (p : ReportingJob σ δ)

def total : ℕ := p.run.items.length

def emit (owner : Option (Str × Str)) (e : ArchiveEvent) : ReportingJob σ δ :=
  { p with state := p.state.emit e, emissions := p.emissions ++ [⟨owner, e⟩] }

/-- The worker of an item emits an event, or none. -/
def emits (item : Str × Str) : Option ArchiveEvent → ReportingJob σ δ
  | some e => p.emit (some item) e
  | none => p

def setPhase (phase : ArchivePhase) : ReportingJob σ δ :=
  { p with run := { p.run with phase := phase } }

/-- The copy of an item goes on; an upload that follows has a callback of its own. -/
def setCopy (i : ℕ) (state : CopyState σ) (status : CopyStatus) : ReportingJob σ δ :=
  { p with
    objects := state.objects
    run := { p.run with
      aclSupported := state.aclSupported
      copy := Function.update p.run.copy i status }
    callback := Function.update p.callback i makeCallback }

def setCallback (i : ℕ) (callback : CallbackState) : ReportingJob σ δ :=
  { p with callback := Function.update p.callback i callback }

def setCopyReport (i : ℕ) (report : CopyReport) : ReportingJob σ δ :=
  { p with copyReport := Function.update p.copyReport i report }

def setVerify (i : ℕ) (status : VerifyStatus δ) : ReportingJob σ δ :=
  { p with run := { p.run with verify := Function.update p.run.verify i status } }

def setVerifyReport (i : ℕ) (report : VerifyReport) : ReportingJob σ δ :=
  { p with verifyReport := Function.update p.verifyReport i report }

def setStage (stage : WorkStage) : ReportingJob σ δ := { p with stage := stage }

def setWork (phase : WorkPhase) : ReportingJob σ δ :=
  { p with state := { p.state with phase := phase } }

end ReportingJob

section Steps

variable [DecidableEq σ] (archive : σ) (sha256 : List UInt8 → δ)
  (named : Location σ → ObjectHead → List UInt8)

/-- The steps of `copy_one` and of `verify_and_delete_one`, with the event emitted. -/
inductive ItemStep (i : ℕ) (item : Str × Str) :
    ReportingJob σ δ → Option ArchiveEvent → ReportingJob σ δ → Prop where
  | copies {p : ReportingJob σ δ} {state : CopyState σ} {status : CopyStatus}
      (phase : p.run.phase = .copying)
      (step : CopyOne (p.run.call archive) p.run.bucketErrors item
        ⟨p.objects, p.run.aclSupported⟩ (p.run.copy i) state status) :
      ItemStep i item p none (p.setCopy i state status)
  | uploads {p : ReportingJob σ δ} {body : StoredObject} {acl : Bool} (now : ℚ)
      (bytesAmount : ℤ) (phase : p.run.phase = .copying)
      (uploading : p.run.copy i = .fetched body acl) :
      ItemStep i item p
        (((p.callback i).callback body.bytes.length now bytesAmount).2.map fun sent ↦
          onItemProgress item.2 sent.1 sent.2)
        (p.setCallback i ((p.callback i).callback body.bytes.length now bytesAmount).1)
  | countsCopy {p : ReportingJob σ δ} {copied : CopyResult} (phase : p.run.phase = .copying)
      (copy : p.run.copy i = .done copied) (due : p.copyReport i = .due) :
      ItemStep i item p none { p.setCopyReport i (.counted (p.copyCompleted + 1)) with
        copyCompleted := p.copyCompleted + 1 }
  | tellsCopy {p : ReportingJob σ δ} {copied : CopyResult} {completed : ℕ}
      (phase : p.run.phase = .copying) (copy : p.run.copy i = .done copied)
      (counted : p.copyReport i = .counted completed) :
      ItemStep i item p
        (some (onCopyProgress completed p.total item.2 copied.success copied.skipped))
        (p.setCopyReport i .told)
  | checks {p : ReportingJob σ δ} {copied : CopyResult} (phase : p.run.phase = .verifying)
      (copy : p.run.copy i = .done copied) (success : copied.success = true)
      (waiting : p.run.verify i = .waiting) (unreported : p.verifyReport i = .unreported) :
      ItemStep i item p
        (some (progress "checking".toList i p.total item (mergedResult copied) 0 0 none))
        (p.setVerifyReport i .checking)
  | beginsDigest {p : ReportingJob σ δ} {copied : CopyResult} {phase : Str}
      {source : ObjectHead} (verifying : p.run.phase = .verifying)
      (copy : p.run.copy i = .done copied)
      (digesting : (p.run.verify i).digesting = some (phase, source))
      (new : ∀ size lastEmit, p.verifyReport i ≠ .hashing phase size lastEmit) :
      ItemStep i item p
        (some (progress phase i p.total item (mergedResult copied) 0 source.contentLength none))
        (p.setVerifyReport i (.hashing phase 0 0))
  | readsChunk {p : ReportingJob σ δ} {copied : CopyResult} {phase : Str} {source : ObjectHead}
      {size : ℕ} {lastEmit : ℚ} (now : ℚ) (chunk : ℕ) (verifying : p.run.phase = .verifying)
      (copy : p.run.copy i = .done copied)
      (digesting : (p.run.verify i).digesting = some (phase, source))
      (hashing : p.verifyReport i = .hashing phase size lastEmit)
      (quiet : ¬ (digestMinInterval ≤ now - lastEmit ∨ size + chunk = source.contentLength)) :
      ItemStep i item p none (p.setVerifyReport i (.hashing phase (size + chunk) lastEmit))
  | tellsChunk {p : ReportingJob σ δ} {copied : CopyResult} {phase : Str} {source : ObjectHead}
      {size : ℕ} {lastEmit : ℚ} (now : ℚ) (chunk : ℕ) (verifying : p.run.phase = .verifying)
      (copy : p.run.copy i = .done copied)
      (digesting : (p.run.verify i).digesting = some (phase, source))
      (hashing : p.verifyReport i = .hashing phase size lastEmit)
      (due : digestMinInterval ≤ now - lastEmit ∨ size + chunk = source.contentLength) :
      ItemStep i item p
        (some (progress phase i p.total item (mergedResult copied) (size + chunk)
          source.contentLength none))
        (p.setVerifyReport i (.hashing phase (size + chunk) now))
  | verifies {p : ReportingJob σ δ} {copied : CopyResult} {status : VerifyStatus δ}
      (phase : p.run.phase = .verifying) (copy : p.run.copy i = .done copied)
      (told : ToldBefore copied (p.verifyReport i) (p.run.verify i) status)
      (step : VerifyOne archive sha256 named p.objects p.run item copied (p.run.verify i)
        status) :
      ItemStep i item p none (p.setVerify i status)
  | tellsDeleting {p : ReportingJob σ δ} {copied : CopyResult} {source : ObjectHead}
      (phase : p.run.phase = .verifying) (copy : p.run.copy i = .done copied)
      (approved : p.run.verify i = .approved source) (new : p.verifyReport i ≠ .deleting) :
      ItemStep i item p
        (some (progress "deleting".toList i p.total item (mergedResult copied) 0 0 none))
        (p.setVerifyReport i .deleting)
  | deletes {p : ReportingJob σ δ} {copied : CopyResult} {source : ObjectHead}
      {objects : Objects σ} {result : ArchiveResult} (phase : p.run.phase = .verifying)
      (copy : p.run.copy i = .done copied) (approved : p.run.verify i = .approved source)
      (told : p.verifyReport i = .deleting)
      (request : DeleteOne copied source (p.run.sourceOf item) p.objects objects result) :
      ItemStep i item p none { p.setVerify i (.done result) with objects := objects }
  | countsItem {p : ReportingJob σ δ} {result : ArchiveResult}
      (phase : p.run.phase = .verifying) (done : p.run.verify i = .done result)
      (uncounted : ∀ completed, p.verifyReport i ≠ .counted completed ∧
        p.verifyReport i ≠ .itemDone completed) (goesOn : p.verifyReport i ≠ .ended) :
      ItemStep i item p none { p.setVerifyReport i (.counted (p.verifyCompleted + 1)) with
        verifyCompleted := p.verifyCompleted + 1 }
  | tellsItem {p : ReportingJob σ δ} {result : ArchiveResult} {completed : ℕ}
      (phase : p.run.phase = .verifying) (done : p.run.verify i = .done result)
      (counted : p.verifyReport i = .counted completed) :
      ItemStep i item p
        (some (progress "item_done".toList i p.total item result 0 0 (some completed)))
        (p.setVerifyReport i (.itemDone completed))
  | tellsDeletion {p : ReportingJob σ δ} {result : ArchiveResult} {completed : ℕ}
      (phase : p.run.phase = .verifying) (done : p.run.verify i = .done result)
      (told : p.verifyReport i = .itemDone completed) (attempted : result.deleteAttempted = true) :
      ItemStep i item p
        (some (onDeleteProgress completed p.total item.1
          [⟨item.1, item.2, result.deleteSuccess, result.deleteError⟩]))
        (p.setVerifyReport i .ended)
  | ends {p : ReportingJob σ δ} {result : ArchiveResult} {completed : ℕ}
      (phase : p.run.phase = .verifying) (done : p.run.verify i = .done result)
      (told : p.verifyReport i = .itemDone completed) (kept : result.deleteSuccess = false) :
      ItemStep i item p none (p.setVerifyReport i .ended)

/-- The steps of `work` and of `_run`, among those of other clients of the storage. -/
inductive ReportStep : ReportingJob σ δ → ReportingJob σ δ → Prop where
  | others {p : ReportingJob σ δ} (objects : Objects σ) :
      ReportStep p { p with objects := objects }
  | prepares {p : ReportingJob σ δ} (working : p.state.phase = .working)
      (stage : p.stage = .preparing) :
      ReportStep p ((p.emit none preparePhase).setStage .archiving)
  | begins {p : ReportingJob σ δ} (working : p.state.phase = .working)
      (stage : p.stage = .archiving) (phase : p.run.phase = .admitted)
      (accepted : ∀ item ∈ p.run.items, item.1 ≠ archiveBucketName) :
      ReportStep p (p.setPhase .copying)
  | item {p q : ReportingJob σ δ} {i : ℕ} {item : Str × Str} {e? : Option ArchiveEvent}
      (working : p.state.phase = .working) (at_item : p.run.items[i]? = some item)
      (step : ItemStep archive sha256 named i item p e? q) : ReportStep p (q.emits item e?)
  | verifies {p : ReportingJob σ δ} (working : p.state.phase = .working)
      (phase : p.run.phase = .copying)
      (copied : ∀ i < p.run.items.length,
        (∃ result, p.run.copy i = .done result) ∧ p.copyReport i = .told) :
      ReportStep p (p.setPhase .verifying)
  | finishes {p : ReportingJob σ δ} (working : p.state.phase = .working)
      (phase : p.run.phase = .verifying)
      (ended : ∀ i < p.run.items.length, p.verifyReport i = .ended) :
      ReportStep p (p.setPhase .finished)
  | reports {p : ReportingJob σ δ} (working : p.state.phase = .working)
      (stage : p.stage = .archiving) (phase : p.run.phase = .finished) :
      ReportStep p ((p.emit none reportPhase).setStage .reporting)
  | done {p : ReportingJob σ δ} {results : List ArchiveResult}
      (working : p.state.phase = .working) (stage : p.stage = .reporting)
      (length : results.length = p.run.items.length)
      (verified : ∀ i result, results[i]? = some result → p.run.verify i = .done result) :
      ReportStep p ((p.emit none (doneEvent results)).setStage .ended)
  | returns {p : ReportingJob σ δ} (working : p.state.phase = .working)
      (stage : p.stage = .ended) : ReportStep p (p.setWork .closing)
  | raises {p : ReportingJob σ δ} (message : Str) (working : p.state.phase = .working)
      (stage : p.stage = .archiving ∨ p.stage = .reporting)
      (copied : ∀ i, (p.run.copy i).isBusy = false)
      (verified : ∀ i, (p.run.verify i).isBusy = false) :
      ReportStep p (((p.setPhase .finished).setStage .ended).setWork (.raised message))
  | archiveFailed {p : ReportingJob σ δ} {message : Str}
      (raised : p.state.phase = .raised message) :
      ReportStep p ((p.emit none ⟨"archive_failed".toList, .message message⟩).setWork
        (.reported message))
  | error {p : ReportingJob σ δ} {message : Str} (reported : p.state.phase = .reported message) :
      ReportStep p ((p.emit none ⟨"error".toList, .message message⟩).setWork .closing)
  | finish {p : ReportingJob σ δ} (closing : p.state.phase = .closing) :
      ReportStep p (p.setWork .finished)

end Steps

/-! ## What lies below -/

section Below

variable [DecidableEq σ] {archive : σ} {sha256 : List UInt8 → δ}
  {named : Location σ → ObjectHead → List UInt8} {p q : ReportingJob σ δ}

/-- The steps of the workers are steps of the archive run, or none. -/
theorem ItemStep.runStep {i : ℕ} {item : Str × Str} {e? : Option ArchiveEvent}
    (h : ItemStep archive sha256 named i item p e? q) (hitem : p.run.items[i]? = some item) :
    q.objects = p.objects ∧ q.run = p.run ∨
      RunStep archive sha256 named p.objects p.run q.objects q.run := by
  cases h with
  | copies phase step => exact .inr (.copies phase hitem step)
  | verifies phase copy told step => exact .inr (.verify phase hitem copy step)
  | deletes phase copy approved told request =>
      exact .inr (.delete phase hitem copy approved request)
  | _ => exact .inl ⟨rfl, rfl⟩

theorem ItemStep.frame {i : ℕ} {item : Str × Str} {e? : Option ArchiveEvent}
    (h : ItemStep archive sha256 named i item p e? q) :
    q.state = p.state ∧ q.emissions = p.emissions ∧ q.run.items = p.run.items := by
  cases h <;> exact ⟨rfl, rfl, rfl⟩

theorem ReportStep.runStep (h : ReportStep archive sha256 named p q) :
    q.run = p.run ∨ RunStep archive sha256 named p.objects p.run q.objects q.run ∨
      q.run = { p.run with phase := .finished } := by
  cases h with
  | begins working stage phase accepted => exact .inr (.inl (.begins phase accepted))
  | @item q i item e? working hitem step =>
      have hemits : (q.emits item e?).run = q.run ∧ (q.emits item e?).objects = q.objects := by
        cases e? <;> exact ⟨rfl, rfl⟩
      rw [hemits.1, hemits.2]
      rcases step.runStep hitem with ⟨_, hrun⟩ | hstep
      · exact .inl hrun
      · exact .inr (.inl hstep)
  | verifies working phase copied =>
      exact .inr (.inl (.verifies phase fun i hi ↦ (copied i hi).1))
  | finishes => exact .inr (.inr rfl)
  | raises => exact .inr (.inr rfl)
  | _ => exact .inl rfl

/-- The job and its log take the steps of a worker that emits some events. -/
theorem ReportStep.workSteps (h : ReportStep archive sha256 named p q) :
    Relation.ReflTransGen WorkStep p.state q.state := by
  cases h with
  | prepares working => exact .single (.emit _ working)
  | @item q i item e? working hitem step =>
      obtain ⟨hstate, _⟩ := step.frame
      cases e? with
      | none =>
          change Relation.ReflTransGen WorkStep p.state q.state
          rw [hstate]
      | some e =>
          change Relation.ReflTransGen WorkStep p.state (q.state.emit e)
          rw [hstate]
          exact .single (.emit e working)
  | reports working => exact .single (.emit _ working)
  | done working => exact .single (.emit _ working)
  | returns working => exact .single (.returns working)
  | raises message working => exact .single (.raises message working)
  | archiveFailed raised => exact .single (.archiveFailed raised)
  | error reported => exact .single (.error reported)
  | finish closing => exact .single (.finish closing)
  | _ => exact .refl

end Below

end StorageReconciler
