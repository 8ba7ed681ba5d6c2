import StorageReconciler.CopyReport

/-!
# Restoring from the archive

An archive key names the bucket and the key that the object came from, and a
restore copies it there.  The check of a request looks at one item at a time,
and so does not see that an item may be restored onto the archive copy of
another.
-/

namespace StorageReconciler

open Strings Workers

structure RestoreFromArchiveBody where
  items : List CopyItem
  sourceProvider : Str
  destProvider : Str
  overwrite : Bool
  makePublic : Bool

/-- The inverse of `archiveDestKey`, for the bucket. -/
def restoreDestBucket (_bucket key : Str) : Str := (partition '/' key).1

/-- The inverse of `archiveDestKey`, for the key. -/
def restoreDestKey (_bucket key : Str) : Str := (partition '/' key).2

def validateRestoreBody (body : RestoreFromArchiveBody) : Except Str Unit := do
  if body.items.length = 0 then
    throw "No items to restore".toList
  let malformed := (body.items.filter fun item ↦ !item.key.contains '/').map CopyItem.key
  if let key :: _ := malformed then
    throw ((Nat.repr malformed.length).toList ++
      (" item(s) have no \"/\" in their archive key — expected " ++
        "\"<original bucket>/<original key>\" (e.g. from /parse-archive-refs), got \"").toList ++
      key ++ "\"".toList)
  let selfTargeting := body.items.filter fun item ↦
    decide (restoreDestBucket item.bucket item.key = item.bucket)
  if let item :: _ := selfTargeting then
    throw ("Restoring \"".toList ++ item.key ++ "\" would target its own source bucket \"".toList ++
      item.bucket ++ "\" — check the archive key".toList)

theorem restoreDestBucket_ne {body : RestoreFromArchiveBody}
    (h : validateRestoreBody body = .ok ()) {item : CopyItem} (hitem : item ∈ body.items) :
    restoreDestBucket item.bucket item.key ≠ item.bucket := by
  intro hself
  have hmem : item ∈ body.items.filter fun item ↦
      decide (restoreDestBucket item.bucket item.key = item.bucket) :=
    List.mem_filter.mpr ⟨hitem, decide_eq_true hself⟩
  obtain ⟨first, rest, hfirst⟩ := List.exists_cons_of_ne_nil (List.ne_nil_of_mem hmem)
  unfold validateRestoreBody at h
  split_ifs at h with hempty
  · cases h
  · simp only at h
    split at h
    · cases h
    · rw [hfirst] at h
      cases h

variable {σ : Type*}

/-- The call that `restore_from_archive` makes of `copy_objects`. -/
def restoreFromArchive (store : Str → σ) (body : RestoreFromArchiveBody) : CopyCall σ where
  items := body.items.map fun item ↦ (item.bucket, item.key)
  sourceProvider := store body.sourceProvider
  destProvider := store body.destProvider
  destBucket := none
  overwrite := body.overwrite
  makePublic := body.makePublic
  destKeyFn := some restoreDestKey
  destBucketFn := some restoreDestBucket

variable [DecidableEq σ]

/-! ## Copies that leave their sources alone -/

section Sources

variable (call : CopyCall σ) (bucketErrors : Str → Option Str) (before : Objects σ)

/-- Whatever the order of the workers' steps, none is about to upload to where an item
is to be read, and what is there stays as it was. -/
def KeepsSources : Prop :=
  ∀ p, Relation.ReflTransGen (Step (copyAction call bucketErrors)) (CopyStart before) p →
    (∀ (i : ℕ) (item : Str × Str) (body : StoredObject) (acl : Bool), call.items[i]? = some item →
      p.status i = .fetched body acl → ∀ other ∈ call.items,
        call.destOf item ≠ call.sourceOf other) ∧
    ∀ other ∈ call.items, p.shared.objects (call.sourceOf other) = before (call.sourceOf other)

/-- No item with something to copy is let through to where another item is read. -/
def SourcesApart : Prop :=
  ∀ item ∈ call.items, ∀ other ∈ call.items, call.destOf item = call.sourceOf other →
    bucketErrors (call.resolveDestBucket item) = none →
    (call.overwrite = true ∨ before (call.sourceOf other) = none) →
    before (call.sourceOf item) = none

def SourcesAsBefore (s : CopyState σ) : Prop :=
  ∀ other ∈ call.items, s.objects (call.sourceOf other) = before (call.sourceOf other)

/-- Where a worker may be if its destination is a source. -/
def SourceProgress (item : Str × Str) : CopyStatus → Prop
  | .transfer => ∀ other ∈ call.items, call.destOf item = call.sourceOf other →
      bucketErrors (call.resolveDestBucket item) = none ∧
        (call.overwrite = true ∨ before (call.sourceOf other) = none)
  | .fetched _ _ => ∀ other ∈ call.items, call.destOf item ≠ call.sourceOf other
  | .refused _ => ∀ other ∈ call.items, call.destOf item ≠ call.sourceOf other
  | _ => True

def SourceAssertion (i : ℕ) (_ : CopyState σ) (t : CopyStatus) : Prop :=
  ∀ item, call.items[i]? = some item → SourceProgress call bucketErrors before item t

end Sources

section Stable

variable {call : CopyCall σ} {bucketErrors : Str → Option Str} {before : Objects σ}
  {item : Str × Str} {s s' : CopyState σ} {t t' : CopyStatus}

/-- A worker that has read its source is not let through to another one. -/
theorem SourceProgress.own (hapart : SourcesApart call bucketErrors before)
    (hitem : item ∈ call.items) (hsources : SourcesAsBefore call before s)
    (h : CopyOne call bucketErrors item s t s' t')
    (hprogress : SourceProgress call bucketErrors before item t) :
    SourceProgress call bucketErrors before item t' := by
  cases h with
  | notFound available _ absent =>
      intro other hother hdest
      refine ⟨available, .inr ?_⟩
      rw [← hsources other hother, ← hdest]
      exact absent
  | force available overwrites => exact fun _ _ _ ↦ ⟨available, .inl overwrites⟩
  | get there =>
      intro other hother hdest
      obtain ⟨available, hlet⟩ := hprogress other hother hdest
      have hnone := hapart item hitem other hother hdest available hlet
      rw [← hsources item hitem, there] at hnone
      cases hnone
  | uploadRefused => exact hprogress
  | getAgain => exact hprogress
  | unavailable => exact trivial
  | headFails => exact trivial
  | found => exact trivial
  | skip => exact trivial
  | skipRefused => exact trivial
  | aclFails => exact trivial
  | getFails => exact trivial
  | upload => exact trivial
  | getAgainFails => exact trivial
  | uploadFails => exact trivial
  | uploadLost => exact trivial

theorem SourcesAsBefore.step (hsources : SourcesAsBefore call before s)
    (h : CopyOne call bucketErrors item s t s' t')
    (hprogress : SourceProgress call bucketErrors before item t) :
    SourcesAsBefore call before s' := by
  intro other hother
  rcases h.objects_cases with hsame | ⟨body, obj, acl, rfl, _, hput⟩
  · rw [hsame]
    exact hsources other hother
  · rw [hput, Function.update_of_ne (hprogress other hother).symm]
    exact hsources other hother

theorem sourceStable (hapart : SourcesApart call bucketErrors before) :
    Stable (copyAction call bucketErrors) (SourcesAsBefore call before)
      (SourceAssertion call bucketErrors before) := by
  constructor
  · rintro i s t s' t' ⟨item, hitem, hact⟩ hsources hassert
    exact hsources.step hact (hassert item hitem)
  · rintro i s t s' t' ⟨item, hitem, hact⟩ hsources hassert item' hitem'
    obtain rfl := Option.some.inj (hitem.symm.trans hitem')
    exact (hassert item hitem).own hapart (List.mem_of_getElem? hitem) hsources hact
  · exact fun _ _ _ _ hassert item hitem ↦ hassert item hitem

end Stable

section KeepsSources

variable {call : CopyCall σ} {bucketErrors : Str → Option Str} {before : Objects σ}

theorem keepsSources_of_sourcesApart (hapart : SourcesApart call bucketErrors before) :
    KeepsSources call bucketErrors before := by
  intro p hrun
  have hstart : Workers.Holds (SourcesAsBefore call before)
      (SourceAssertion call bucketErrors before) (CopyStart before) :=
    ⟨fun _ _ ↦ rfl, fun _ _ _ ↦ trivial⟩
  obtain ⟨hsources, hassert⟩ := (sourceStable hapart).reachable hstart hrun
  refine ⟨?_, hsources⟩
  intro i item body acl hitem hstatus other hother
  have hprogress := hassert i item hitem
  rw [hstatus] at hprogress
  exact hprogress other hother

theorem sourcesApart_of_keepsSources (hkeeps : KeepsSources call bucketErrors before) :
    SourcesApart call bucketErrors before := by
  intro item hitem other hother hdest available hlet
  obtain ⟨i, hi⟩ := List.mem_iff_getElem?.mp hitem
  by_contra hthere
  obtain ⟨obj, hobj⟩ := Option.ne_none_iff_exists'.mp hthere
  let s : CopyState σ := ⟨before, fun _ ↦ true⟩
  let acl := call.makePublic && s.aclSupported (call.resolveDestBucket item)
  have hthrough : CopyAlone call bucketErrors item (s, .waiting) (s, .transfer) := by
    cases hoverwrite : call.overwrite with
    | true => exact .force available hoverwrite
    | false =>
        have habsent := hlet.resolve_left (by simp [hoverwrite])
        exact .notFound available hoverwrite (hdest ▸ habsent)
  have hget : CopyAlone call bucketErrors item (s, .transfer) (s, .fetched obj acl) :=
    .get hobj
  have hrun := reaches_of_alone hi (.tail (.single hthrough) hget)
  exact (hkeeps _ hrun).1 i item obj acl hi (by simp) other hother hdest

end KeepsSources

/-! ## Restoring -/

section Restore

variable {store : Str → σ} {body : RestoreFromArchiveBody} {bucketErrors : Str → Option Str}
  {before : Objects σ}

/-- No item with an archive copy is let through to the archive copy of another item. -/
def ArchivesApart (store : Str → σ) (body : RestoreFromArchiveBody)
    (bucketErrors : Str → Option Str) (before : Objects σ) : Prop :=
  ∀ item ∈ body.items, ∀ other ∈ body.items,
    restoreDestBucket item.bucket item.key = other.bucket →
    restoreDestKey item.bucket item.key = other.key → bucketErrors other.bucket = none →
    (body.overwrite = true ∨ before ⟨store body.sourceProvider, other.bucket, other.key⟩ = none) →
    before ⟨store body.sourceProvider, item.bucket, item.key⟩ = none

omit [DecidableEq σ] in
theorem destOf_restoreFromArchive (bucket key : Str) :
    (restoreFromArchive store body).destOf (bucket, key) =
      ⟨store body.destProvider, restoreDestBucket bucket key, restoreDestKey bucket key⟩ := rfl

/-- Within one provider, a restore leaves the archive copies alone if and only if none of
them is where another one is restored to. -/
theorem restore_keepsSources_iff (hsame : body.sourceProvider = body.destProvider) :
    KeepsSources (restoreFromArchive store body) bucketErrors before ↔
      ArchivesApart store body bucketErrors before := by
  have hapart : SourcesApart (restoreFromArchive store body) bucketErrors before ↔
      ArchivesApart store body bucketErrors before := by
    constructor
    · intro h item hitem other hother hbucket hkey available
      apply h (item.bucket, item.key) (List.mem_map_of_mem hitem) (other.bucket, other.key)
        (List.mem_map_of_mem hother)
      · rw [destOf_restoreFromArchive, hbucket, hkey, ← hsame]
        rfl
      · change bucketErrors (restoreDestBucket item.bucket item.key) = none
        rw [hbucket]
        exact available
    · intro h item hitem other hother hdest available
      obtain ⟨item', hitem', rfl⟩ := List.mem_map.mp hitem
      obtain ⟨other', hother', rfl⟩ := List.mem_map.mp hother
      rw [destOf_restoreFromArchive] at hdest
      obtain ⟨_, hbucket, hkey⟩ := Location.mk.inj hdest
      change bucketErrors (restoreDestBucket item'.bucket item'.key) = none at available
      rw [hbucket] at available
      exact h item' hitem' other' hother' hbucket hkey available
  rw [← hapart]
  exact ⟨sourcesApart_of_keepsSources, keepsSources_of_sourcesApart⟩

omit [DecidableEq σ] in
/-- The check suffices where all archive copies are in one bucket. -/
theorem archivesApart_of_single_bucket (hvalid : validateRestoreBody body = .ok ())
    {archive : Str} (hsingle : ∀ item ∈ body.items, item.bucket = archive) :
    ArchivesApart store body bucketErrors before := by
  intro item hitem other hother hbucket
  have hown := restoreDestBucket_ne hvalid hitem
  rw [hbucket, hsingle item hitem, hsingle other hother] at hown
  exact absurd rfl hown

end Restore

/-! ## An archive copy under the key of another -/

def archivedItem (bucket key : String) : CopyItem :=
  ⟨bucket.toList, key.toList, .blank, none, none, none, .blank⟩

def archivedObject (bytes : List UInt8) : StoredObject := ⟨bytes, none, [], 0, none⟩

def archiveLocationOf (item : CopyItem) : Location Str := ⟨"do".toList, item.bucket, item.key⟩

def restoreBody (items : List CopyItem) : RestoreFromArchiveBody :=
  ⟨items, "do".toList, "do".toList, true, false⟩

/-- One archive copy under another's key, in the bucket that this key names. -/
def nestedItem : CopyItem := archivedItem "archive" "second/scola/a.png"

def innerItem : CopyItem := archivedItem "second" "scola/a.png"

def archivedObjects : Objects Str := fun l ↦
  if l = archiveLocationOf nestedItem then some (archivedObject [1])
  else if l = archiveLocationOf innerItem then some (archivedObject [2])
  else none

def nestedRestore : CopyCall Str := restoreFromArchive id (restoreBody [nestedItem, innerItem])

def archivedState : CopyState Str := ⟨archivedObjects, fun _ ↦ true⟩

theorem nested_fetched : Relation.ReflTransGen
    (CopyAlone nestedRestore (fun _ ↦ none) (nestedItem.bucket, nestedItem.key))
    (archivedState, .waiting) (archivedState, .fetched (archivedObject [1]) false) := by
  have hthrough : CopyAlone nestedRestore (fun _ ↦ none) (nestedItem.bucket, nestedItem.key)
      (archivedState, .waiting) (archivedState, .transfer) := .force rfl rfl
  have hget : CopyAlone nestedRestore (fun _ ↦ none) (nestedItem.bucket, nestedItem.key)
      (archivedState, .transfer) (archivedState, .fetched (archivedObject [1]) false) :=
    .get rfl
  exact .tail (.single hthrough) hget

/-- The request is valid, and overwrites the archive copy of its second item. -/
theorem restore_overwrites_archive :
    validateRestoreBody (restoreBody [nestedItem, innerItem]) = .ok () ∧
      (∃ p, Relation.ReflTransGen (Step (copyAction nestedRestore fun _ ↦ none))
          (CopyStart archivedObjects) p ∧
        (archivedObjects (archiveLocationOf innerItem)).map StoredObject.bytes = some [2] ∧
        (p.shared.objects (archiveLocationOf innerItem)).map StoredObject.bytes = some [1]) ∧
      ¬ KeepsSources nestedRestore (fun _ ↦ none) archivedObjects := by
  have hupload : CopyAlone nestedRestore (fun _ ↦ none) (nestedItem.bucket, nestedItem.key)
      (archivedState, .fetched (archivedObject [1]) false)
      (archivedState.put (archiveLocationOf innerItem) (archivedObject [1]),
        .done (nestedRestore.copied (nestedItem.bucket, nestedItem.key))) :=
    .upload ⟨rfl, fun _ ↦ rfl⟩
  refine ⟨rfl, ⟨_, reaches_of_alone (i := 0) rfl (nested_fetched.tail hupload), by decide, ?_⟩, ?_⟩
  · simp [archivedObject]
  · intro hkeeps
    have hrun := reaches_of_alone (i := 0) rfl nested_fetched
    have hinner : (innerItem.bucket, innerItem.key) ∈ nestedRestore.items := by
      simp [nestedRestore, restoreFromArchive, restoreBody]
    exact (hkeeps _ hrun).1 0 _ (archivedObject [1]) false rfl (by simp) _ hinner rfl

/-- Two archive copies of one archive bucket. -/
def plainItems : List CopyItem :=
  [archivedItem "archive" "scola/a.png", archivedItem "archive" "scola/b.png"]

theorem restore_keepsSources_plain :
    KeepsSources (restoreFromArchive id (restoreBody plainItems)) (fun _ ↦ none)
      archivedObjects := by
  apply (restore_keepsSources_iff rfl).mpr
  have hbuckets : ∀ item ∈ plainItems, restoreDestBucket item.bucket item.key = "scola".toList ∧
      item.bucket ≠ "scola".toList := by
    intro item hitem
    rcases List.mem_pair.mp hitem with rfl | rfl <;> decide
  intro item hitem other hother hbucket
  exact absurd (hbucket.symm.trans (hbuckets item hitem).1) (hbuckets other hother).2

end StorageReconciler
