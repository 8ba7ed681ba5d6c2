import StorageReconciler.Foundations.Workers
import StorageReconciler.Types

/-!
# Copying objects between stores

Every item is copied by a worker of its own: unless asked to overwrite, it looks
whether the destination exists, and skips it then; otherwise it gets the source
and uploads it, a second time without an access list where the bucket takes
none.  The workers share the destination, and any call of theirs may fail.
-/

namespace StorageReconciler

open Strings Workers

/-- Where an object lives: its store, its bucket and its key. -/
structure Location (σ : Type*) where
  store : σ
  bucket : Str
  key : Str
  deriving DecidableEq

structure StoredObject where
  bytes : List UInt8
  contentType : Option Str
  etag : Str
  lastModified : DateTime
  versionId : Option Str
  deriving DecidableEq

abbrev Objects (σ : Type*) := Location σ → Option StoredObject

structure CopyResult where
  bucket : Str
  key : Str
  destBucket : Str
  destKey : Str
  success : Bool
  skipped : Bool
  error : Option Str
  deriving DecidableEq

/-- The arguments of `copy_objects`, the stores being those its clients talk to. -/
structure CopyCall (σ : Type*) where
  items : List (Str × Str)
  sourceProvider : σ
  destProvider : σ
  destBucket : Option Str
  overwrite : Bool
  makePublic : Bool
  destKeyFn : Option (Str → Str → Str)
  destBucketFn : Option (Str → Str → Str)

variable {σ : Type*}

namespace CopyCall

variable (call : CopyCall σ) (item : Str × Str)

def resolveDestBucket : Str :=
  match call.destBucketFn, call.destBucket with
  | some fn, _ => fn item.1 item.2
  | none, some (c :: s) => c :: s
  | none, _ => item.1

def targetKey : Str :=
  match call.destKeyFn with
  | some fn => fn item.1 item.2
  | none => item.2

def sourceOf : Location σ := ⟨call.sourceProvider, item.1, item.2⟩

def destOf : Location σ := ⟨call.destProvider, call.resolveDestBucket item, call.targetKey item⟩

def outcome (success skipped : Bool) (error : Option Str) : CopyResult where
  bucket := item.1
  key := item.2
  destBucket := call.resolveDestBucket item
  destKey := call.targetKey item
  success := success
  skipped := skipped
  error := error

def copied : CopyResult := call.outcome item true false none

def skippedOutcome : CopyResult := call.outcome item true true none

def failed (error : Str) : CopyResult := call.outcome item false false (some error)

end CopyCall

/-- What the workers of one call share.  A bucket counts as taking access lists
until it has refused one. -/
structure CopyState (σ : Type*) where
  objects : Objects σ
  aclSupported : Str → Bool

/-- How far `copy_one` is: not begun, the destination found, to be transferred, the
source read with or without an access list to set, the list refused (what was to be
set beside it being known), or done. -/
inductive CopyStatus where
  | waiting
  | present
  | transfer
  | fetched (body : StoredObject) (acl : Bool)
  | refused (contentType : Option Str)
  | done (result : CopyResult)

namespace CopyState

variable [DecidableEq σ]

def put (s : CopyState σ) (l : Location σ) (obj : StoredObject) : CopyState σ :=
  { s with objects := Function.update s.objects l (some obj) }

def refuseAcl (s : CopyState σ) (bucket : Str) : CopyState σ :=
  { s with aclSupported := Function.update s.aclSupported bucket false }

@[simp] theorem put_objects (s : CopyState σ) (l : Location σ) (obj : StoredObject) :
    (s.put l obj).objects = Function.update s.objects l (some obj) := rfl

omit [DecidableEq σ] in
@[simp] theorem refuseAcl_objects (s : CopyState σ) (bucket : Str) :
    (s.refuseAcl bucket).objects = s.objects := rfl

end CopyState

section Copy

variable [DecidableEq σ] (call : CopyCall σ) (bucketErrors : Str → Option Str)

/-- The upload stores the bytes read, as an object the store names and dates. -/
def IsUpload (body obj : StoredObject) : Prop :=
  obj.bytes = body.bytes ∧ (body.contentType ≠ none → obj.contentType = body.contentType)

/-- The steps of `copy_one`. -/
inductive CopyOne (item : Str × Str) :
    CopyState σ → CopyStatus → CopyState σ → CopyStatus → Prop where
  | unavailable {s : CopyState σ} {e : Str}
      (error : bucketErrors (call.resolveDestBucket item) = some e) :
      CopyOne item s .waiting s
        (.done (call.failed item ("Destination bucket unavailable: ".toList ++ e)))
  | headFails {s : CopyState σ} {e : Str}
      (available : bucketErrors (call.resolveDestBucket item) = none)
      (keeps : call.overwrite = false) :
      CopyOne item s .waiting s (.done (call.failed item e))
  | found {s : CopyState σ} {obj : StoredObject}
      (available : bucketErrors (call.resolveDestBucket item) = none)
      (keeps : call.overwrite = false) (there : s.objects (call.destOf item) = some obj) :
      CopyOne item s .waiting s .present
  | notFound {s : CopyState σ}
      (available : bucketErrors (call.resolveDestBucket item) = none)
      (keeps : call.overwrite = false) (absent : s.objects (call.destOf item) = none) :
      CopyOne item s .waiting s .transfer
  | force {s : CopyState σ}
      (available : bucketErrors (call.resolveDestBucket item) = none)
      (overwrites : call.overwrite = true) :
      CopyOne item s .waiting s .transfer
  | skip {s : CopyState σ} :
      CopyOne item s .present s (.done (call.skippedOutcome item))
  | skipRefused {s : CopyState σ}
      (acl : call.makePublic && s.aclSupported (call.resolveDestBucket item)) :
      CopyOne item s .present (s.refuseAcl (call.resolveDestBucket item))
        (.done (call.skippedOutcome item))
  | aclFails {s : CopyState σ} {e : Str}
      (acl : call.makePublic && s.aclSupported (call.resolveDestBucket item)) :
      CopyOne item s .present s (.done (call.failed item e))
  | get {s : CopyState σ} {obj : StoredObject}
      (there : s.objects (call.sourceOf item) = some obj) :
      CopyOne item s .transfer s
        (.fetched obj (call.makePublic && s.aclSupported (call.resolveDestBucket item)))
  | getFails {s : CopyState σ} {e : Str} :
      CopyOne item s .transfer s (.done (call.failed item e))
  | upload {s : CopyState σ} {body obj : StoredObject} {acl : Bool} (stores : IsUpload body obj) :
      CopyOne item s (.fetched body acl) (s.put (call.destOf item) obj)
        (.done (call.copied item))
  | uploadRefused {s : CopyState σ} {body : StoredObject} :
      CopyOne item s (.fetched body true) (s.refuseAcl (call.resolveDestBucket item))
        (.refused body.contentType)
  | getAgain {s : CopyState σ} {contentType : Option Str} {obj : StoredObject}
      (there : s.objects (call.sourceOf item) = some obj) :
      CopyOne item s (.refused contentType) s
        (.fetched { obj with contentType := contentType } false)
  | getAgainFails {s : CopyState σ} {contentType : Option Str} {e : Str} :
      CopyOne item s (.refused contentType) s (.done (call.failed item e))
  | uploadFails {s : CopyState σ} {body : StoredObject} {acl : Bool} {e : Str} :
      CopyOne item s (.fetched body acl) s (.done (call.failed item e))
  | uploadLost {s : CopyState σ} {body obj : StoredObject} {acl : Bool} {e : Str}
      (stores : IsUpload body obj) :
      CopyOne item s (.fetched body acl) (s.put (call.destOf item) obj)
        (.done (call.failed item e))

theorem CopyOne.objects_cases {call : CopyCall σ} {bucketErrors : Str → Option Str}
    {item : Str × Str} {s s' : CopyState σ} {t t' : CopyStatus}
    (h : CopyOne call bucketErrors item s t s' t') :
    s'.objects = s.objects ∨ ∃ body obj acl, t = .fetched body acl ∧ IsUpload body obj ∧
      s'.objects = Function.update s.objects (call.destOf item) (some obj) := by
  cases h with
  | upload stores => exact .inr ⟨_, _, _, rfl, stores, rfl⟩
  | uploadLost stores => exact .inr ⟨_, _, _, rfl, stores, rfl⟩
  | _ => exact .inl rfl

/-- The worker of a number copies the item of that number. -/
def copyAction : Action (CopyState σ) CopyStatus := fun i s t s' t' ↦
  ∃ item, call.items[i]? = some item ∧ CopyOne call bucketErrors item s t s' t'

def CopyStart (objects : Objects σ) : Team (CopyState σ) CopyStatus :=
  ⟨⟨objects, fun _ ↦ true⟩, fun _ ↦ .waiting⟩

/-- A step of a worker that is alone. -/
def CopyAlone (item : Str × Str) (p q : CopyState σ × CopyStatus) : Prop :=
  CopyOne call bucketErrors item p.1 p.2 q.1 q.2

theorem reaches_of_alone {call : CopyCall σ} {bucketErrors : Str → Option Str} {i : ℕ}
    {item : Str × Str} (hitem : call.items[i]? = some item) {before : Objects σ}
    {s : CopyState σ} {t : CopyStatus}
    (h : Relation.ReflTransGen (CopyAlone call bucketErrors item)
      (⟨before, fun _ ↦ true⟩, .waiting) (s, t)) :
    Relation.ReflTransGen (Step (copyAction call bucketErrors)) (CopyStart before)
      ⟨s, Function.update (fun _ ↦ .waiting) i t⟩ := by
  have halone : Relation.ReflTransGen (Alone (copyAction call bucketErrors) i)
      (⟨before, fun _ ↦ true⟩, .waiting) (s, t) :=
    Relation.ReflTransGen.mono (fun _ _ hstep ↦ ⟨item, hitem, hstep⟩) _ _ h
  exact reaches_alone (p := CopyStart before) halone

/-- The call leads from objects `before` to `after`, whatever the order of the
workers' steps, with one result for each item. -/
def CopiesTo (before after : Objects σ) (results : List CopyResult) : Prop :=
  results.length = call.items.length ∧ ∃ p,
    Relation.ReflTransGen (Step (copyAction call bucketErrors)) (CopyStart before) p ∧
    p.shared.objects = after ∧ ∀ i r, results[i]? = some r → p.status i = .done r

end Copy

end StorageReconciler
