import StorageReconciler.CopyObjects
import StorageReconciler.Foundations.Strings

/-!
# Copying from and to stores that answer alike

A store answers a request by what it stores, and a bucket either takes access lists or
refuses every request that carries one.  The call always returns; and where the answers to
a request depend on the object it is about alone, with the same results and objects
whatever the order of the workers.
-/

namespace StorageReconciler

open Strings Workers

/-! ## What a store answers -/

structure ClientError where
  code : Str
  message : Str
  deriving DecidableEq

def aclUnsupportedCodes : List Str :=
  ["UnsupportedAclConfigurationException", "AccessControlListNotSupported",
    "InvalidBucketAclWithObjectOwnership"].map String.toList

def isAclUnsupportedError (T : Tables) (error : ClientError) : Bool :=
  if aclUnsupportedCodes.contains error.code then true
  else
    let message := lower T error.message
    occursIn "acl".toList message &&
      ["unsupported", "not support", "disabled"].any fun word ↦ occursIn word.toList message

/-- The bytes and the content type of an object, stored or to be uploaded. -/
structure Content where
  bytes : List UInt8
  contentType : Option Str
  deriving DecidableEq

def StoredObject.content (obj : StoredObject) : Content := ⟨obj.bytes, obj.contentType⟩

/-- The error of an upload, which may have stored the object all the same. -/
structure UploadError where
  stored : Bool
  error : Str
  deriving DecidableEq

/-- The answers that are errors, and what a store adds to an object.  A bucket either
refuses access lists, with an error that says so, or takes them; all else depends on the
request and on what is stored. -/
structure StoreAnswers (T : Tables) (σ : Type*) where
  aclError : Str → Option {e : ClientError // isAclUnsupportedError T e = true}
  headError : Location σ → Objects σ → Option Str
  getError : Location σ → Objects σ → Option Str
  noSuchKey : Location σ → Str
  uploadError : Location σ → Content → Objects σ → Option UploadError
  defaultType : Location σ → Objects σ → Option Str

variable {T : Tables} {σ : Type*}

namespace StoreAnswers

variable (answers : StoreAnswers T σ) (l : Location σ) (objects : Objects σ)

def refuses (bucket : Str) : Bool := (answers.aclError bucket).isSome

def head : Except Str Bool :=
  match answers.headError l objects with
  | some e => .error e
  | none => .ok (objects l).isSome

def get : Except Str StoredObject :=
  match answers.getError l objects, objects l with
  | some e, _ => .error e
  | none, some obj => .ok obj
  | none, none => .error (answers.noSuchKey l)

def storedContent (c : Content) : Content :=
  ⟨c.bytes, c.contentType.or (answers.defaultType l objects)⟩

/-- The answers to a request depend on the object it is about alone. -/
structure IsLocal : Prop where
  head : ∀ l objects objects', objects l = objects' l →
    answers.headError l objects = answers.headError l objects'
  get : ∀ l objects objects', objects l = objects' l →
    answers.getError l objects = answers.getError l objects'
  upload : ∀ l c objects objects', objects l = objects' l →
    answers.uploadError l c objects = answers.uploadError l c objects' ∧
      answers.defaultType l objects = answers.defaultType l objects'

end StoreAnswers

variable [DecidableEq σ]

section Answered

variable (answers : StoreAnswers T σ) (call : CopyCall σ) (bucketErrors : Str → Option Str)

/-- The steps of `copy_one` when the stores answer so. -/
inductive AnsweredCopy (item : Str × Str) :
    CopyState σ → CopyStatus → CopyState σ → CopyStatus → Prop where
  | unavailable {s : CopyState σ} {e : Str}
      (error : bucketErrors (call.resolveDestBucket item) = some e) :
      AnsweredCopy item s .waiting s
        (.done (call.failed item ("Destination bucket unavailable: ".toList ++ e)))
  | headFails {s : CopyState σ} {e : Str}
      (available : bucketErrors (call.resolveDestBucket item) = none)
      (keeps : call.overwrite = false)
      (answered : answers.head (call.destOf item) s.objects = .error e) :
      AnsweredCopy item s .waiting s (.done (call.failed item e))
  | found {s : CopyState σ}
      (available : bucketErrors (call.resolveDestBucket item) = none)
      (keeps : call.overwrite = false)
      (answered : answers.head (call.destOf item) s.objects = .ok true) :
      AnsweredCopy item s .waiting s .present
  | notFound {s : CopyState σ}
      (available : bucketErrors (call.resolveDestBucket item) = none)
      (keeps : call.overwrite = false)
      (answered : answers.head (call.destOf item) s.objects = .ok false) :
      AnsweredCopy item s .waiting s .transfer
  | force {s : CopyState σ}
      (available : bucketErrors (call.resolveDestBucket item) = none)
      (overwrites : call.overwrite = true) :
      AnsweredCopy item s .waiting s .transfer
  | skip {s : CopyState σ}
      (accepted : (call.makePublic && s.aclSupported (call.resolveDestBucket item) &&
        answers.refuses (call.resolveDestBucket item)) = false) :
      AnsweredCopy item s .present s (.done (call.skippedOutcome item))
  | skipRefused {s : CopyState σ}
      (acl : (call.makePublic && s.aclSupported (call.resolveDestBucket item)) = true)
      (refused : answers.refuses (call.resolveDestBucket item) = true) :
      AnsweredCopy item s .present (s.refuseAcl (call.resolveDestBucket item))
        (.done (call.skippedOutcome item))
  | get {s : CopyState σ} {obj : StoredObject}
      (answered : answers.get (call.sourceOf item) s.objects = .ok obj) :
      AnsweredCopy item s .transfer s
        (.fetched obj (call.makePublic && s.aclSupported (call.resolveDestBucket item)))
  | getFails {s : CopyState σ} {e : Str}
      (answered : answers.get (call.sourceOf item) s.objects = .error e) :
      AnsweredCopy item s .transfer s (.done (call.failed item e))
  | upload {s : CopyState σ} {body obj : StoredObject} {acl : Bool}
      (accepted : (acl && answers.refuses (call.resolveDestBucket item)) = false)
      (answered : answers.uploadError (call.destOf item) body.content s.objects = none)
      (stores : obj.content = answers.storedContent (call.destOf item) s.objects body.content) :
      AnsweredCopy item s (.fetched body acl) (s.put (call.destOf item) obj)
        (.done (call.copied item))
  | uploadRefused {s : CopyState σ} {body : StoredObject}
      (refused : answers.refuses (call.resolveDestBucket item) = true) :
      AnsweredCopy item s (.fetched body true) (s.refuseAcl (call.resolveDestBucket item))
        (.refused body.contentType)
  | getAgain {s : CopyState σ} {contentType : Option Str} {obj : StoredObject}
      (answered : answers.get (call.sourceOf item) s.objects = .ok obj) :
      AnsweredCopy item s (.refused contentType) s
        (.fetched { obj with contentType := contentType } false)
  | getAgainFails {s : CopyState σ} {contentType : Option Str} {e : Str}
      (answered : answers.get (call.sourceOf item) s.objects = .error e) :
      AnsweredCopy item s (.refused contentType) s (.done (call.failed item e))
  | uploadFails {s : CopyState σ} {body : StoredObject} {acl : Bool} {e : Str}
      (accepted : (acl && answers.refuses (call.resolveDestBucket item)) = false)
      (answered : answers.uploadError (call.destOf item) body.content s.objects =
        some ⟨false, e⟩) :
      AnsweredCopy item s (.fetched body acl) s (.done (call.failed item e))
  | uploadLost {s : CopyState σ} {body obj : StoredObject} {acl : Bool} {e : Str}
      (accepted : (acl && answers.refuses (call.resolveDestBucket item)) = false)
      (answered : answers.uploadError (call.destOf item) body.content s.objects =
        some ⟨true, e⟩)
      (stores : obj.content = answers.storedContent (call.destOf item) s.objects body.content) :
      AnsweredCopy item s (.fetched body acl) (s.put (call.destOf item) obj)
        (.done (call.failed item e))

def answeredAction : Action (CopyState σ) CopyStatus := fun i s t s' t' ↦
  ∃ item, call.items[i]? = some item ∧ AnsweredCopy answers call bucketErrors item s t s' t'

/-- What the call leads to when the stores answer so. -/
def CopiesAnswered (before after : Objects σ) (results : List CopyResult) : Prop :=
  results.length = call.items.length ∧ ∃ p,
    Relation.ReflTransGen (Step (answeredAction answers call bucketErrors)) (CopyStart before) p ∧
    p.shared.objects = after ∧ ∀ i r, results[i]? = some r → p.status i = .done r

end Answered

section Refinement

variable {answers : StoreAnswers T σ} {call : CopyCall σ} {bucketErrors : Str → Option Str}

omit [DecidableEq σ] in
theorem StoreAnswers.objects_of_get {l : Location σ} {objects : Objects σ} {obj : StoredObject}
    (h : answers.get l objects = .ok obj) : objects l = some obj := by
  rw [StoreAnswers.get] at h
  cases he : answers.getError l objects with
  | some e =>
      rw [he] at h
      exact nomatch h
  | none =>
      rw [he] at h
      cases ho : objects l with
      | none =>
          rw [ho] at h
          exact nomatch h
      | some o =>
          rw [ho] at h
          rw [Except.ok.inj h]

omit [DecidableEq σ] in
theorem StoreAnswers.isSome_of_head {l : Location σ} {objects : Objects σ} {there : Bool}
    (h : answers.head l objects = .ok there) : (objects l).isSome = there := by
  rw [StoreAnswers.head] at h
  cases he : answers.headError l objects with
  | some e =>
      rw [he] at h
      exact nomatch h
  | none =>
      rw [he] at h
      exact Except.ok.inj h

omit [DecidableEq σ] in
theorem StoreAnswers.isUpload {l : Location σ} {objects : Objects σ} {body obj : StoredObject}
    (h : obj.content = answers.storedContent l objects body.content) : IsUpload body obj := by
  obtain ⟨hbytes, htype⟩ := Content.mk.inj h
  refine ⟨hbytes, fun hne ↦ ?_⟩
  obtain ⟨type, hsome⟩ := Option.ne_none_iff_exists'.mp hne
  rw [htype, StoredObject.content, hsome, Option.some_or]

/-- What happens so may happen. -/
theorem AnsweredCopy.copyOne {item : Str × Str} {s s' : CopyState σ} {t t' : CopyStatus}
    (h : AnsweredCopy answers call bucketErrors item s t s' t') :
    CopyOne call bucketErrors item s t s' t' := by
  cases h with
  | unavailable error => exact .unavailable error
  | headFails available keeps answered => exact .headFails available keeps
  | found available keeps answered =>
      obtain ⟨obj, hobj⟩ := Option.isSome_iff_exists.mp (StoreAnswers.isSome_of_head answered)
      exact .found available keeps hobj
  | notFound available keeps answered =>
      have habsent := StoreAnswers.isSome_of_head answered
      exact .notFound available keeps (Option.not_isSome_iff_eq_none.mp (by simp [habsent]))
  | force available overwrites => exact .force available overwrites
  | skip accepted => exact .skip
  | skipRefused acl refused => exact .skipRefused acl
  | get answered => exact .get (StoreAnswers.objects_of_get answered)
  | getFails answered => exact .getFails
  | upload accepted answered stores => exact .upload (StoreAnswers.isUpload stores)
  | uploadRefused refused => exact .uploadRefused
  | getAgain answered => exact .getAgain (StoreAnswers.objects_of_get answered)
  | getAgainFails answered => exact .getAgainFails
  | uploadFails accepted answered => exact .uploadFails
  | uploadLost accepted answered stores => exact .uploadLost (StoreAnswers.isUpload stores)

theorem AnsweredCopy.objects_eq {item : Str × Str} {s s' : CopyState σ} {t t' : CopyStatus}
    (h : AnsweredCopy answers call bucketErrors item s t s' t') {l : Location σ}
    (hne : call.destOf item ≠ l) : s'.objects l = s.objects l := by
  rcases h.copyOne.objects_cases with hsame | ⟨body, obj, acl, _, _, hput⟩
  · rw [hsame]
  · rw [hput]
    exact Function.update_of_ne hne.symm _ _

theorem CopiesAnswered.copiesTo {before after : Objects σ} {results : List CopyResult}
    (h : CopiesAnswered answers call bucketErrors before after results) :
    CopiesTo call bucketErrors before after results := by
  obtain ⟨hlength, p, hrun, hafter, hdone⟩ := h
  refine ⟨hlength, p, ?_, hafter, hdone⟩
  refine Relation.ReflTransGen.mono (fun q q' hstep ↦ ?_) _ _ hrun
  cases hstep with
  | worker hact =>
      obtain ⟨item, hitem, hcopy⟩ := hact
      exact .worker ⟨item, hitem, hcopy.copyOne⟩

end Refinement

/-! ## Answers about one object -/

/-- No item is copied to where another one is copied from. -/
def CopyCall.SourcesApart (call : CopyCall σ) : Prop :=
  ∀ (i j : ℕ) (a b : Str × Str), call.items[i]? = some a → call.items[j]? = some b → i ≠ j →
    call.destOf a ≠ call.sourceOf b

def contentAt (objects : Objects σ) (l : Location σ) : Option Content :=
  (objects l).map StoredObject.content

section Outcome

variable (answers : StoreAnswers T σ) (call : CopyCall σ) (bucketErrors : Str → Option Str)
  (item : Str × Str) (objects : Objects σ)

/-- The result of an item and what its destination holds, after a failure that leaves it. -/
def outcomeOfFailure (error : Str) : CopyResult × Option Content :=
  (call.failed item error, contentAt objects (call.destOf item))

def outcomeOfUpload (c : Content) : CopyResult × Option Content :=
  let l := call.destOf item
  match answers.uploadError l c objects with
  | none => (call.copied item, some (answers.storedContent l objects c))
  | some e =>
      if e.stored then (call.failed item e.error, some (answers.storedContent l objects c))
      else outcomeOfFailure call item objects e.error

def outcomeOfTransfer : CopyResult × Option Content :=
  match answers.get (call.sourceOf item) objects with
  | .error e => outcomeOfFailure call item objects e
  | .ok obj => outcomeOfUpload answers call item objects obj.content

/-- What a worker comes to that goes on alone, access lists aside. -/
def outcomeOf : CopyStatus → CopyResult × Option Content
  | .waiting =>
      match bucketErrors (call.resolveDestBucket item) with
      | some e =>
          outcomeOfFailure call item objects ("Destination bucket unavailable: ".toList ++ e)
      | none =>
          if call.overwrite then outcomeOfTransfer answers call item objects
          else
            match answers.head (call.destOf item) objects with
            | .error e => outcomeOfFailure call item objects e
            | .ok true => (call.skippedOutcome item, contentAt objects (call.destOf item))
            | .ok false => outcomeOfTransfer answers call item objects
  | .present => (call.skippedOutcome item, contentAt objects (call.destOf item))
  | .transfer => outcomeOfTransfer answers call item objects
  | .fetched body _ => outcomeOfUpload answers call item objects body.content
  | .refused contentType =>
      match answers.get (call.sourceOf item) objects with
      | .error e => outcomeOfFailure call item objects e
      | .ok obj => outcomeOfUpload answers call item objects ⟨obj.bytes, contentType⟩
  | .done r => (r, contentAt objects (call.destOf item))

/-- What has been read of the source is what it holds. -/
def IsUpToDate : CopyStatus → Prop
  | .fetched body _ =>
      ∃ obj, answers.get (call.sourceOf item) objects = .ok obj ∧ obj.content = body.content
  | .refused contentType =>
      ∃ obj, answers.get (call.sourceOf item) objects = .ok obj ∧ obj.contentType = contentType
  | _ => True

end Outcome

section Determined

variable {answers : StoreAnswers T σ} {call : CopyCall σ} {bucketErrors : Str → Option Str}
  {item : Str × Str}

theorem contentAt_put (s : CopyState σ) (l : Location σ) (obj : StoredObject) :
    contentAt (s.put l obj).objects l = some obj.content := by
  rw [contentAt, CopyState.put_objects, Function.update_self, Option.map_some]

theorem AnsweredCopy.outcomeOf_eq {s s' : CopyState σ} {t t' : CopyStatus}
    (h : AnsweredCopy answers call bucketErrors item s t s' t')
    (hread : IsUpToDate answers call item s.objects t) :
    outcomeOf answers call bucketErrors item s'.objects t' =
        outcomeOf answers call bucketErrors item s.objects t ∧
      IsUpToDate answers call item s'.objects t' := by
  cases h with
  | unavailable error =>
      simp only [outcomeOf, error]
      exact ⟨rfl, trivial⟩
  | headFails available keeps answered =>
      simp only [outcomeOf, available, keeps, answered]
      exact ⟨rfl, trivial⟩
  | found available keeps answered =>
      simp only [outcomeOf, available, keeps, answered]
      exact ⟨rfl, trivial⟩
  | notFound available keeps answered =>
      simp only [outcomeOf, available, keeps, answered]
      exact ⟨rfl, trivial⟩
  | force available overwrites =>
      simp only [outcomeOf, available, overwrites]
      exact ⟨rfl, trivial⟩
  | skip accepted => exact ⟨rfl, trivial⟩
  | skipRefused acl refused => exact ⟨rfl, trivial⟩
  | get answered =>
      simp only [outcomeOf, outcomeOfTransfer, answered]
      exact ⟨trivial, _, answered, rfl⟩
  | getFails answered =>
      simp only [outcomeOf, outcomeOfTransfer, answered]
      exact ⟨rfl, trivial⟩
  | upload accepted answered stores =>
      simp only [outcomeOf, outcomeOfUpload, answered, contentAt_put, stores]
      exact ⟨trivial, trivial⟩
  | uploadRefused refused =>
      obtain ⟨obj, hget, hcontent⟩ := hread
      obtain ⟨hbytes, htype⟩ := Content.mk.inj hcontent
      simp only [outcomeOf, CopyState.refuseAcl_objects, hget, hbytes]
      exact ⟨rfl, obj, hget, htype⟩
  | @getAgain contentType obj answered =>
      obtain ⟨obj', hget, htype⟩ := hread
      obtain rfl : obj = obj' := Except.ok.inj (answered.symm.trans hget)
      simp only [outcomeOf, answered]
      exact ⟨rfl, obj, answered, by rw [← htype]⟩
  | getAgainFails answered =>
      simp only [outcomeOf, answered]
      exact ⟨rfl, trivial⟩
  | uploadFails accepted answered =>
      simp only [outcomeOf, outcomeOfUpload, answered]
      exact ⟨rfl, trivial⟩
  | uploadLost accepted answered stores =>
      simp only [outcomeOf, outcomeOfUpload, answered, contentAt_put, stores]
      exact ⟨rfl, trivial⟩

section Congr

variable {objects objects' : Objects σ}

omit [DecidableEq σ] in
theorem StoreAnswers.IsLocal.get_eq (h : answers.IsLocal) {l : Location σ}
    (hl : objects l = objects' l) : answers.get l objects = answers.get l objects' := by
  rw [StoreAnswers.get, StoreAnswers.get, h.get l objects objects' hl, hl]

omit [DecidableEq σ] in
theorem StoreAnswers.IsLocal.head_eq (h : answers.IsLocal) {l : Location σ}
    (hl : objects l = objects' l) : answers.head l objects = answers.head l objects' := by
  rw [StoreAnswers.head, StoreAnswers.head, h.head l objects objects' hl, hl]

omit [DecidableEq σ] in
theorem StoreAnswers.IsLocal.outcomeOf_eq (h : answers.IsLocal)
    (hsource : objects (call.sourceOf item) = objects' (call.sourceOf item))
    (hdest : objects (call.destOf item) = objects' (call.destOf item)) (t : CopyStatus) :
    outcomeOf answers call bucketErrors item objects t =
      outcomeOf answers call bucketErrors item objects' t := by
  have hfailure : outcomeOfFailure call item objects = outcomeOfFailure call item objects' := by
    funext e
    rw [outcomeOfFailure, outcomeOfFailure, contentAt, contentAt, hdest]
  have hupload : outcomeOfUpload answers call item objects =
      outcomeOfUpload answers call item objects' := by
    funext c
    obtain ⟨herror, htype⟩ := h.upload (call.destOf item) c objects objects' hdest
    simp only [outcomeOfUpload, herror, StoreAnswers.storedContent, htype, hfailure]
  have htransfer : outcomeOfTransfer answers call item objects =
      outcomeOfTransfer answers call item objects' := by
    simp only [outcomeOfTransfer, h.get_eq hsource, hfailure, hupload]
  have hcontent : contentAt objects (call.destOf item) = contentAt objects' (call.destOf item) := by
    rw [contentAt, contentAt, hdest]
  cases t with
  | waiting => simp only [outcomeOf, hfailure, htransfer, h.head_eq hdest, hcontent]
  | present => simp only [outcomeOf, hcontent]
  | transfer => exact htransfer
  | fetched body acl => simp only [outcomeOf, hupload]
  | refused contentType => simp only [outcomeOf, h.get_eq hsource, hfailure, hupload]
  | done r => simp only [outcomeOf, hcontent]

omit [DecidableEq σ] in
theorem IsUpToDate.congr (h : answers.IsLocal)
    (hsource : objects' (call.sourceOf item) = objects (call.sourceOf item)) {t : CopyStatus}
    (hread : IsUpToDate answers call item objects t) : IsUpToDate answers call item objects' t := by
  cases t with
  | fetched body acl =>
      obtain ⟨obj, hget, hcontent⟩ := hread
      exact ⟨obj, (h.get_eq hsource).trans hget, hcontent⟩
  | refused contentType =>
      obtain ⟨obj, hget, htype⟩ := hread
      exact ⟨obj, (h.get_eq hsource).trans hget, htype⟩
  | _ => trivial

end Congr

variable (call) in
/-- What no item is copied to is left alone. -/
def KeepsElsewhere (before : Objects σ) (s : CopyState σ) : Prop :=
  ∀ l, (∀ item ∈ call.items, call.destOf item ≠ l) → s.objects l = before l

variable (answers call bucketErrors) in
/-- A worker will come to what it would have come to at the beginning. -/
def IsOnItsWay (before : Objects σ) (i : ℕ) (s : CopyState σ) (t : CopyStatus) : Prop :=
  ∀ item, call.items[i]? = some item → IsUpToDate answers call item s.objects t ∧
    outcomeOf answers call bucketErrors item s.objects t =
      outcomeOf answers call bucketErrors item before .waiting

theorem onItsWay_stable (hlocal : answers.IsLocal) (hdest : (call.items.map call.destOf).Nodup)
    (hsources : call.SourcesApart) (before : Objects σ) :
    Stable (answeredAction answers call bucketErrors) (KeepsElsewhere call before)
      (IsOnItsWay answers call bucketErrors before) where
  shared := by
    rintro i s t s' t' ⟨item, hitem, hcopy⟩ hkeeps _ l hl
    exact (hcopy.objects_eq (hl item (List.mem_of_getElem? hitem))).trans (hkeeps l hl)
  own := by
    rintro i s t s' t' ⟨item, hitem, hcopy⟩ _ hway item' hitem'
    obtain rfl : item = item' := Option.some.inj (hitem.symm.trans hitem')
    obtain ⟨hread, houtcome⟩ := hway item hitem
    obtain ⟨hsame, hread'⟩ := hcopy.outcomeOf_eq hread
    exact ⟨hread', hsame.trans houtcome⟩
  other := by
    rintro i j s t u s' u' ⟨b, hb, hcopy⟩ hij _ _ hway a ha
    have hdests : call.destOf b ≠ call.destOf a := by
      intro heq
      have hj : (call.items.map call.destOf)[j]? = some (call.destOf b) := by
        rw [List.getElem?_map, hb, Option.map_some]
      have hi : (call.items.map call.destOf)[i]? = some (call.destOf b) := by
        rw [List.getElem?_map, ha, Option.map_some, heq]
      have hlt := (List.getElem?_eq_some_iff.mp hi).1
      exact hij ((List.getElem?_inj hlt hdest).mp (hi.trans hj.symm))
    have hsource := hcopy.objects_eq (hsources j i b a hb ha hij.symm)
    obtain ⟨hread, houtcome⟩ := hway a ha
    refine ⟨hread.congr hlocal hsource, ?_⟩
    rw [hlocal.outcomeOf_eq hsource (hcopy.objects_eq hdests)]
    exact houtcome

/-- Answered about one object at a time, the call leads to one outcome, whatever the order
of the steps. -/
theorem CopiesAnswered.determined (hlocal : answers.IsLocal)
    (hdest : (call.items.map call.destOf).Nodup) (hsources : call.SourcesApart)
    {before after : Objects σ} {results : List CopyResult}
    (h : CopiesAnswered answers call bucketErrors before after results) :
    results = call.items.map (fun item ↦
        (outcomeOf answers call bucketErrors item before .waiting).1) ∧
      (∀ item ∈ call.items, contentAt after (call.destOf item) =
        (outcomeOf answers call bucketErrors item before .waiting).2) ∧
      ∀ l, (∀ item ∈ call.items, call.destOf item ≠ l) → after l = before l := by
  obtain ⟨hlength, p, hrun, rfl, hdone⟩ := h
  have hstart : Holds (KeepsElsewhere call before) (IsOnItsWay answers call bucketErrors before)
      (CopyStart before) := ⟨fun _ _ ↦ rfl, fun _ _ _ ↦ ⟨trivial, rfl⟩⟩
  obtain ⟨hkeeps, hway⟩ :=
    (onItsWay_stable hlocal hdest hsources before).reachable hstart hrun
  have heach : ∀ (i : ℕ) item, call.items[i]? = some item → ∃ r, results[i]? = some r ∧
      (r, contentAt p.shared.objects (call.destOf item)) =
        outcomeOf answers call bucketErrors item before .waiting := by
    intro i item hitem
    have hi : i < results.length := hlength ▸ (List.getElem?_eq_some_iff.mp hitem).1
    have hr := List.getElem?_eq_getElem hi
    have houtcome := (hway i item hitem).2
    rw [hdone i _ hr] at houtcome
    exact ⟨_, hr, houtcome⟩
  refine ⟨List.ext_getElem? fun i ↦ ?_, fun item hitem ↦ ?_, hkeeps⟩
  · rw [List.getElem?_map]
    cases hitem : call.items[i]? with
    | none =>
        rw [List.getElem?_eq_none_iff] at hitem
        exact List.getElem?_eq_none_iff.mpr (hlength.trans_le hitem)
    | some item =>
        obtain ⟨r, hr, houtcome⟩ := heach i item hitem
        rw [hr, Option.map_some, ← houtcome]
  · obtain ⟨i, hi⟩ := List.mem_iff_getElem?.mp hitem
    obtain ⟨r, _, houtcome⟩ := heach i item hi
    rw [← houtcome]

/-! ## The call returns -/

section Returns

variable {i : ℕ} (hitem : call.items[i]? = some item)

include hitem

theorem exists_done_of_fetched {s : CopyState σ} {body : StoredObject} {acl : Bool}
    (haccepted : (acl && answers.refuses (call.resolveDestBucket item)) = false) :
    ∃ s' r, Relation.ReflTransGen (Alone (answeredAction answers call bucketErrors) i)
      (s, .fetched body acl) (s', .done r) := by
  have hobj : ∀ c : Content, ∃ obj : StoredObject, obj.content = c :=
    fun c ↦ ⟨⟨c.bytes, c.contentType, [], 0, none⟩, rfl⟩
  obtain ⟨obj, hstored⟩ :=
    hobj (answers.storedContent (call.destOf item) s.objects body.content)
  cases hanswered : answers.uploadError (call.destOf item) body.content s.objects with
  | none => exact ⟨_, _, .single ⟨item, hitem, .upload haccepted hanswered hstored⟩⟩
  | some e =>
      obtain ⟨stored, e⟩ := e
      cases stored with
      | true => exact ⟨_, _, .single ⟨item, hitem, .uploadLost haccepted hanswered hstored⟩⟩
      | false => exact ⟨_, _, .single ⟨item, hitem, .uploadFails haccepted hanswered⟩⟩

theorem exists_done_of_transfer (s : CopyState σ) :
    ∃ s' r, Relation.ReflTransGen (Alone (answeredAction answers call bucketErrors) i)
      (s, .transfer) (s', .done r) := by
  cases hanswered : answers.get (call.sourceOf item) s.objects with
  | error e => exact ⟨_, _, .single ⟨item, hitem, .getFails hanswered⟩⟩
  | ok obj =>
      have hget : Alone (answeredAction answers call bucketErrors) i (s, .transfer) (s, .fetched obj
          (call.makePublic && s.aclSupported (call.resolveDestBucket item))) :=
        ⟨item, hitem, .get hanswered⟩
      by_cases hrefused : ((call.makePublic && s.aclSupported (call.resolveDestBucket item)) &&
          answers.refuses (call.resolveDestBucket item)) = true
      · obtain ⟨hacl, hrefused⟩ := Bool.and_eq_true_iff.mp hrefused
        rw [hacl] at hget
        have hrefuse : Alone (answeredAction answers call bucketErrors) i (s, .fetched obj true)
            (s.refuseAcl (call.resolveDestBucket item), .refused obj.contentType) :=
          ⟨item, hitem, .uploadRefused hrefused⟩
        have hagain : Alone (answeredAction answers call bucketErrors) i
            (s.refuseAcl (call.resolveDestBucket item), .refused obj.contentType)
            (s.refuseAcl (call.resolveDestBucket item), .fetched obj false) :=
          ⟨item, hitem, .getAgain hanswered⟩
        obtain ⟨s', r, hrest⟩ := exists_done_of_fetched hitem (Bool.false_and _)
        exact ⟨s', r, .head hget (.head hrefuse (.head hagain hrest))⟩
      · obtain ⟨s', r, hrest⟩ := exists_done_of_fetched hitem (Bool.not_eq_true _ ▸ hrefused)
        exact ⟨s', r, .head hget hrest⟩

theorem exists_done_of_waiting (s : CopyState σ) :
    ∃ s' r, Relation.ReflTransGen (Alone (answeredAction answers call bucketErrors) i)
      (s, .waiting) (s', .done r) := by
  cases herror : bucketErrors (call.resolveDestBucket item) with
  | some e => exact ⟨_, _, .single ⟨item, hitem, .unavailable herror⟩⟩
  | none =>
      obtain ⟨s₁, r₁, htransfer⟩ := exists_done_of_transfer hitem s
      cases hoverwrite : call.overwrite with
      | true => exact ⟨s₁, r₁, .head ⟨item, hitem, .force herror hoverwrite⟩ htransfer⟩
      | false =>
          cases hhead : answers.head (call.destOf item) s.objects with
          | error e => exact ⟨_, _, .single ⟨item, hitem, .headFails herror hoverwrite hhead⟩⟩
          | ok there =>
              cases there with
              | false =>
                  exact ⟨s₁, r₁, .head ⟨item, hitem, .notFound herror hoverwrite hhead⟩ htransfer⟩
              | true =>
                  have hfound : Alone (answeredAction answers call bucketErrors) i (s, .waiting)
                      (s, .present) := ⟨item, hitem, .found herror hoverwrite hhead⟩
                  by_cases hrefused : (call.makePublic &&
                      s.aclSupported (call.resolveDestBucket item) &&
                      answers.refuses (call.resolveDestBucket item)) = true
                  · obtain ⟨hacl, hrefused⟩ := Bool.and_eq_true_iff.mp hrefused
                    exact ⟨_, _, .head hfound (.single ⟨item, hitem, .skipRefused hacl hrefused⟩)⟩
                  · exact ⟨_, _, .head hfound
                      (.single ⟨item, hitem, .skip (Bool.not_eq_true _ ▸ hrefused)⟩)⟩

end Returns

/-- Whatever the stores answer, the call may return with a result for each item. -/
theorem exists_copiesAnswered (answers : StoreAnswers T σ) (call : CopyCall σ)
    (bucketErrors : Str → Option Str) (before : Objects σ) :
    ∃ after results, CopiesAnswered answers call bucketErrors before after results := by
  have hsome : ∀ m ≤ call.items.length, ∃ p,
      Relation.ReflTransGen (Step (answeredAction answers call bucketErrors)) (CopyStart before) p ∧
      (∀ i < m, ∃ r, p.status i = .done r) ∧ ∀ i, m ≤ i → p.status i = .waiting := by
    intro m hm
    induction m with
    | zero => exact ⟨_, .refl, fun i hi ↦ absurd hi (Nat.not_lt_zero i), fun _ _ ↦ rfl⟩
    | succ m ih =>
        obtain ⟨p, hrun, hdone, hwaiting⟩ := ih (Nat.le_of_succ_le hm)
        have hitem : call.items[m]? = some call.items[m] := List.getElem?_eq_getElem hm
        obtain ⟨s, r, halone⟩ : ∃ s r, Relation.ReflTransGen
            (Alone (answeredAction answers call bucketErrors) m) (p.shared, .waiting)
            (s, .done r) := exists_done_of_waiting hitem p.shared
        rw [← hwaiting m le_rfl] at halone
        refine ⟨_, hrun.trans (reaches_alone halone), fun i hi ↦ ?_, fun i hi ↦ ?_⟩
        · by_cases him : i = m
          · exact ⟨r, him ▸ Function.update_self ..⟩
          · obtain ⟨r', hr'⟩ := hdone i (by omega)
            exact ⟨r', (Function.update_of_ne him _ _).trans hr'⟩
        · have him : i ≠ m := by omega
          exact (Function.update_of_ne him _ _).trans (hwaiting i (by omega))
  obtain ⟨p, hrun, hdone, _⟩ := hsome call.items.length le_rfl
  choose result hresult using hdone
  refine ⟨p.shared.objects, List.ofFn fun i : Fin call.items.length ↦ result i i.2,
    List.length_ofFn, p, hrun, rfl, fun i r hr ↦ ?_⟩
  obtain ⟨hi, rfl⟩ := List.getElem?_eq_some_iff.mp hr
  rw [List.length_ofFn] at hi
  rw [List.getElem_ofFn]
  exact hresult i hi

end Determined

end StorageReconciler
