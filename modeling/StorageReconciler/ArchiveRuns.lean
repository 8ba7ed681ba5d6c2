import StorageReconciler.CopyObjects
import StorageReconciler.Foundations.ExclusiveRuns

/-!
# Archiving and deleting

An archive run copies its items to the archive bucket and then, item by item,
compares source and archive by their digests before it asks for the deletion of
the source.  Any number of runs go on at once, as far as the guard admits them;
any call to the storage may fail, and other clients write to the sources.
-/

namespace StorageReconciler

open Strings Workers

def archiveBucketName : Str := "scola-school-archives".toList

/-- `<source bucket>/<source key>` -/
def archiveDestKey (bucket key : Str) : Str := bucket ++ '/' :: key

variable {σ δ : Type*}

def archiveLocation (archive : σ) (item : Str × Str) : Location σ :=
  ⟨archive, archiveBucketName, archiveDestKey item.1 item.2⟩

/-- What `head_object` tells of an object. -/
structure ObjectHead where
  etag : Str
  contentLength : ℕ
  lastModified : DateTime
  versionId : Option Str
  deriving DecidableEq

def StoredObject.head (obj : StoredObject) : ObjectHead where
  etag := obj.etag
  contentLength := obj.bytes.length
  lastModified := obj.lastModified
  versionId := obj.versionId

/-- The size of a stream and the hash of its bytes. -/
def digestOf (sha256 : List UInt8 → δ) (bytes : List UInt8) : ℕ × δ :=
  (bytes.length, sha256 bytes)

structure ArchiveResult where
  bucket : Str
  key : Str
  archiveBucket : Str
  archiveKey : Str
  copySuccess : Bool
  copySkipped : Bool
  copyError : Option Str
  deleteAttempted : Bool
  deleteSuccess : Bool
  deleteError : Option Str
  archiveVerified : Bool
  verificationError : Option Str
  sizeBytes : Option ℕ
  deriving DecidableEq

/-- The result of an item once it was copied, or could not be. -/
def mergedResult (copied : CopyResult) : ArchiveResult where
  bucket := copied.bucket
  key := copied.key
  archiveBucket := copied.destBucket
  archiveKey := copied.destKey
  copySuccess := copied.success
  copySkipped := copied.skipped
  copyError := copied.error
  deleteAttempted := false
  deleteSuccess := false
  deleteError := none
  archiveVerified := false
  verificationError := none
  sizeBytes := none

/-- How far `verify_and_delete_one` is: not begun, the source's head read, the sizes
compared, the source read, the contents compared, found unchanged, or done. -/
inductive VerifyStatus (δ : Type*) where
  | waiting
  | headed (source : ObjectHead)
  | sized (source : ObjectHead)
  | hashed (source : ObjectHead) (digest : ℕ × δ)
  | compared (source : ObjectHead)
  | approved (source : ObjectHead)
  | done (result : ArchiveResult)

namespace VerifyStatus

def source? : VerifyStatus δ → Option ObjectHead
  | headed source => some source
  | sized source => some source
  | hashed source _ => some source
  | compared source => some source
  | approved source => some source
  | _ => none

/-- The verification has neither succeeded nor ended. -/
def isVerifying : VerifyStatus δ → Bool
  | approved _ => false
  | done _ => false
  | _ => true

/-- The worker has begun and is not done. -/
def isBusy : VerifyStatus δ → Bool
  | waiting => false
  | done _ => false
  | _ => true

end VerifyStatus

def CopyStatus.isBusy : CopyStatus → Bool
  | waiting => false
  | done _ => false
  | _ => true

/-- The worker has found the destination absent, and may write to it. -/
def CopyStatus.isTransferring : CopyStatus → Bool
  | transfer => true
  | fetched _ _ => true
  | refused _ => true
  | _ => false

inductive ArchivePhase where
  | admitted
  | copying
  | verifying
  | finished
  deriving DecidableEq

structure ArchiveRun (σ δ : Type*) where
  items : List (Str × Str)
  source : σ
  bucketErrors : Str → Option Str
  phase : ArchivePhase
  aclSupported : Str → Bool
  copy : ℕ → CopyStatus
  verify : ℕ → VerifyStatus δ

namespace ArchiveRun

def start (items : List (Str × Str)) (source : σ) (bucketErrors : Str → Option Str) :
    ArchiveRun σ δ where
  items := items
  source := source
  bucketErrors := bucketErrors
  phase := .admitted
  aclSupported _ := true
  copy _ := .waiting
  verify _ := .waiting

/-- The call of `copy_objects` that a run makes. -/
def call (run : ArchiveRun σ δ) (archive : σ) : CopyCall σ where
  items := run.items
  sourceProvider := run.source
  destProvider := archive
  destBucket := some archiveBucketName
  overwrite := false
  makePublic := false
  destKeyFn := some archiveDestKey
  destBucketFn := none

def sourceOf (run : ArchiveRun σ δ) (item : Str × Str) : Location σ :=
  ⟨run.source, item.1, item.2⟩

end ArchiveRun

/-- The storage, the keys the guard holds, and the runs by their numbers. -/
structure ArchiveSystem (σ δ : Type*) where
  objects : Objects σ
  active : Finset (Str × Str)
  runs : ℕ → Option (ArchiveRun σ δ)

def ArchiveSystem.setRun (s : ArchiveSystem σ δ) (r : ℕ) (run : ArchiveRun σ δ) :
    ArchiveSystem σ δ :=
  { s with runs := Function.update s.runs r (some run) }

section Steps

variable [DecidableEq σ] (archive : σ) (sha256 : List UInt8 → δ)
  (named : Location σ → ObjectHead → List UInt8)

/-- The steps of `verify_and_delete_one` up to the deletion.  A read with `IfMatch` is
of the content that the head named. -/
inductive VerifyOne (objects : Objects σ) (run : ArchiveRun σ δ) (item : Str × Str)
    (copied : CopyResult) : VerifyStatus δ → VerifyStatus δ → Prop where
  | notCopied (failed : copied.success = false) :
      VerifyOne objects run item copied .waiting (.done (mergedResult copied))
  | headSource {obj : StoredObject} (success : copied.success = true)
      (there : objects (run.sourceOf item) = some obj) :
      VerifyOne objects run item copied .waiting (.headed obj.head)
  | headArchive {source : ObjectHead} {obj : StoredObject}
      (there : objects (archiveLocation archive item) = some obj)
      (size : source.contentLength = obj.bytes.length) :
      VerifyOne objects run item copied (.headed source) (.sized source)
  | readSource {source : ObjectHead} {obj : StoredObject}
      (there : objects (run.sourceOf item) = some obj) (ifMatch : obj.etag = source.etag)
      (reads : obj.bytes = named (run.sourceOf item) source) :
      VerifyOne objects run item copied (.sized source)
        (.hashed source (digestOf sha256 obj.bytes))
  | readArchive {source : ObjectHead} {digest : ℕ × δ} {obj : StoredObject}
      (there : objects (archiveLocation archive item) = some obj)
      (same : digest = digestOf sha256 obj.bytes) (size : digest.1 = source.contentLength) :
      VerifyOne objects run item copied (.hashed source digest) (.compared source)
  | headAgain {source : ObjectHead} {obj : StoredObject}
      (there : objects (run.sourceOf item) = some obj) (unchanged : obj.head = source) :
      VerifyOne objects run item copied (.compared source) (.approved source)
  | fails {status : VerifyStatus δ} {error : Str} (success : copied.success = true)
      (verifying : status.isVerifying = true) :
      VerifyOne objects run item copied status (.done
        { mergedResult copied with
          verificationError := some ("Archive verification failed (".toList ++ error ++
            "); source retained".toList)
          sizeBytes := status.source?.map ObjectHead.contentLength })

/-- The result of an item whose deletion was asked for. -/
def deletedResult (copied : CopyResult) (source : ObjectHead) (success : Bool)
    (error : Option Str) : ArchiveResult :=
  { mergedResult copied with
    deleteAttempted := true
    deleteSuccess := success
    deleteError := error
    archiveVerified := true
    sizeBytes := some source.contentLength }

/-- The request to delete the source; it may fail, with or without an effect. -/
inductive DeleteOne (copied : CopyResult) (source : ObjectHead) (l : Location σ) :
    Objects σ → Objects σ → ArchiveResult → Prop where
  | deleted {objects : Objects σ} :
      DeleteOne copied source l objects (Function.update objects l none)
        (deletedResult copied source true none)
  | refused {objects : Objects σ} {e : Str} :
      DeleteOne copied source l objects objects (deletedResult copied source false (some e))
  | lost {objects : Objects σ} {e : Str} :
      DeleteOne copied source l objects (Function.update objects l none)
        (deletedResult copied source false (some e))

/-- The steps of a run: its checks, the copies, and, once all of these are done, the
verifications and deletions. -/
inductive RunStep : Objects σ → ArchiveRun σ δ → Objects σ → ArchiveRun σ δ → Prop where
  | begins {objects : Objects σ} {run : ArchiveRun σ δ} (phase : run.phase = .admitted)
      (accepted : ∀ item ∈ run.items, item.1 ≠ archiveBucketName) :
      RunStep objects run objects { run with phase := .copying }
  | copies {objects : Objects σ} {run : ArchiveRun σ δ} {i : ℕ} {item : Str × Str}
      {state : CopyState σ} {status : CopyStatus} (phase : run.phase = .copying)
      (at_item : run.items[i]? = some item)
      (step : CopyOne (run.call archive) run.bucketErrors item ⟨objects, run.aclSupported⟩
        (run.copy i) state status) :
      RunStep objects run state.objects
        { run with
          aclSupported := state.aclSupported
          copy := Function.update run.copy i status }
  | verifies {objects : Objects σ} {run : ArchiveRun σ δ} (phase : run.phase = .copying)
      (copied : ∀ i < run.items.length, ∃ result, run.copy i = .done result) :
      RunStep objects run objects { run with phase := .verifying }
  | verify {objects : Objects σ} {run : ArchiveRun σ δ} {i : ℕ} {item : Str × Str}
      {copied : CopyResult} {status : VerifyStatus δ} (phase : run.phase = .verifying)
      (at_item : run.items[i]? = some item) (copy : run.copy i = .done copied)
      (step : VerifyOne archive sha256 named objects run item copied (run.verify i) status) :
      RunStep objects run objects { run with verify := Function.update run.verify i status }
  | delete {objects objects' : Objects σ} {run : ArchiveRun σ δ} {i : ℕ} {item : Str × Str}
      {copied : CopyResult} {source : ObjectHead} {result : ArchiveResult}
      (phase : run.phase = .verifying) (at_item : run.items[i]? = some item)
      (copy : run.copy i = .done copied) (approved : run.verify i = .approved source)
      (request : DeleteOne copied source (run.sourceOf item) objects objects' result) :
      RunStep objects run objects'
        { run with verify := Function.update run.verify i (.done result) }

/-- Only archive runs write here. -/
def IsArchive (l : Location σ) : Prop := l.store = archive ∧ l.bucket = archiveBucketName

/-- A step of another client, of the guard, or of a run.  A client writes what the new
head names, and not between the last look at a source and the request to delete it. -/
inductive ArchiveStep : ArchiveSystem σ δ → ArchiveSystem σ δ → Prop where
  | client {s : ArchiveSystem σ δ} {l : Location σ} {obj? : Option StoredObject}
      (elsewhere : ¬IsArchive archive l)
      (names : ∀ obj, obj? = some obj → obj.bytes = named l obj.head)
      (quiet : ∀ r run i item source, s.runs r = some run → run.items[i]? = some item →
        run.verify i = .approved source → run.sourceOf item ≠ l) :
      ArchiveStep s { s with objects := Function.update s.objects l obj? }
  | enter {s : ArchiveSystem σ δ} {r : ℕ} {items : List (Str × Str)} {source : σ}
      {bucketErrors : Str → Option Str} (unused : s.runs r = none)
      (free : ∀ item ∈ items, item ∉ s.active) (plain : ∀ item ∈ items, '/' ∉ item.1) :
      ArchiveStep s { s.setRun r (.start items source bucketErrors) with
        active := s.active ∪ items.toFinset }
  | works {s : ArchiveSystem σ δ} {r : ℕ} {run run' : ArchiveRun σ δ} {objects : Objects σ}
      (running : s.runs r = some run)
      (step : RunStep archive sha256 named s.objects run objects run') :
      ArchiveStep s { s.setRun r run' with objects := objects }
  | leaves {s : ArchiveSystem σ δ} {r : ℕ} {run : ArchiveRun σ δ} (running : s.runs r = some run)
      (phase : run.phase ≠ .finished) (copied : ∀ i, (run.copy i).isBusy = false)
      (verified : ∀ i, (run.verify i).isBusy = false) :
      ArchiveStep s { s.setRun r { run with phase := .finished } with
        active := s.active \ run.items.toFinset }

/-- No run yet; the sources hold what their heads name. -/
structure IsArchiveStart (s : ArchiveSystem σ δ) : Prop where
  active : s.active = ∅
  runs : ∀ r, s.runs r = none
  named : ∀ l obj, ¬IsArchive archive l → s.objects l = some obj → obj.bytes = named l obj.head

end Steps

end StorageReconciler
