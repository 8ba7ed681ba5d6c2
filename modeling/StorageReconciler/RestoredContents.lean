import StorageReconciler.ArchiveTallies
import StorageReconciler.ArchivedContents
import StorageReconciler.CopiedContents
import StorageReconciler.RestoreFromArchive

/-!
# From the archive back to the source

An object that an archive run has deleted comes back with the bytes it had: its archive
copy is never replaced, whatever other runs do meanwhile, and a restore copies it to the
bucket and the key that the name of the copy begins with.
-/

namespace StorageReconciler

open Strings Workers

variable {σ δ : Type*}

/-- The archive copy of an item, as a request to restore names it. -/
def archivedCopy (item : Str × Str) : Str × Str :=
  (archiveBucketName, archiveDestKey item.1 item.2)

/-- Where an item came from, at the provider that it is restored to. -/
def restoredLocation (store : Str → σ) (body : RestoreFromArchiveBody) (item : Str × Str) :
    Location σ :=
  ⟨store body.destProvider, item.1, item.2⟩

theorem destOf_archivedCopy {store : Str → σ} {body : RestoreFromArchiveBody}
    {item : Str × Str} (hplain : '/' ∉ item.1) :
    (restoreFromArchive store body).destOf (archivedCopy item) =
      restoredLocation store body item := by
  have hparts : partition '/' (archiveDestKey item.1 item.2) = item := partition_append hplain
  rw [archivedCopy, destOf_restoreFromArchive, restoreDestBucket, restoreDestKey, hparts]
  rfl

theorem sourceOf_archivedCopy {store : Str → σ} {body : RestoreFromArchiveBody} {archive : σ}
    (hsource : store body.sourceProvider = archive) (item : Str × Str) :
    (restoreFromArchive store body).sourceOf (archivedCopy item) =
      archiveLocation archive item := by
  rw [← hsource]
  rfl

theorem slash_mem_of_valid {body : RestoreFromArchiveBody}
    (h : validateRestoreBody body = .ok ()) {item : CopyItem} (hitem : item ∈ body.items) :
    '/' ∈ item.key := by
  by_contra hslash
  have hcontains : item.key.contains '/' = false := by simpa using hslash
  have hmem : item.key ∈ (body.items.filter fun item ↦ !item.key.contains '/').map CopyItem.key :=
    List.mem_map_of_mem (List.mem_filter.mpr ⟨hitem, by rw [hcontains]; rfl⟩)
  obtain ⟨first, rest, hfirst⟩ := List.exists_cons_of_ne_nil (List.ne_nil_of_mem hmem)
  unfold validateRestoreBody at h
  split_ifs at h with hempty
  · cases h
  · simp only [hfirst] at h
    cases h

/-! ## A restore among the archive runs -/

/-- The archive runs and the storage, with the workers of a restore. -/
structure RestoreRun (σ δ : Type*) where
  system : ArchiveSystem σ δ
  aclSupported : Str → Bool
  status : ℕ → CopyStatus

namespace RestoreRun

def start (system : ArchiveSystem σ δ) : RestoreRun σ δ := ⟨system, fun _ ↦ true, fun _ ↦ .waiting⟩

variable (w : RestoreRun σ δ)

def objects : Objects σ := w.system.objects

/-- The workers, to whom the storage is what they share. -/
def team : Team (CopyState σ) CopyStatus := ⟨⟨w.objects, w.aclSupported⟩, w.status⟩

/-- The restore as its workers have it. -/
def ofTeam (p : Team (CopyState σ) CopyStatus) : RestoreRun σ δ where
  system := { w.system with objects := p.shared.objects }
  aclSupported := p.shared.aclSupported
  status := p.status

end RestoreRun

variable [DecidableEq σ]

section Steps

variable (archive : σ) (sha256 : List UInt8 → δ) (named : Location σ → ObjectHead → List UInt8)
  (call : CopyCall σ) (bucketErrors : Str → Option Str)

/-- A worker of the restore takes a step, or others do, who meanwhile leave alone what is
restored. -/
inductive RestoreStep : RestoreRun σ δ → RestoreRun σ δ → Prop where
  | worker {w : RestoreRun σ δ} {p : Team (CopyState σ) CopyStatus}
      (step : Step (copyAction call bucketErrors) w.team p) : RestoreStep w (w.ofTeam p)
  | others {w : RestoreRun σ δ} {system : ArchiveSystem σ δ}
      (step : ArchiveStep archive sha256 named w.system system)
      (apart : ∀ item ∈ call.items,
        system.objects (call.destOf item) = w.system.objects (call.destOf item)) :
      RestoreStep w { w with system := system }

end Steps

section Invariant

variable {archive : σ} {sha256 : List UInt8 → δ} {named : Location σ → ObjectHead → List UInt8}
  {call : CopyCall σ} {bucketErrors : Str → Option Str} {before : Objects σ} {item : Str × Str}
  {obj : StoredObject} {w w' : RestoreRun σ δ} {dest : Location σ}

variable (archive call before item obj dest) in
/-- The archive copy is as it was, and the workers have read nothing else. -/
structure RestoreRun.Sound (w : RestoreRun σ δ) : Prop where
  ordered : ∀ r run, w.system.runs r = some run → run.Ordered
  frozen : Frozen archive w.system item obj
  holds : Workers.Holds (CopyInvariant call before (archiveLocation archive item) dest)
    (CopyAssertion call before (archiveLocation archive item) dest) w.team

/-- No worker of the restore writes to the archive. -/
theorem copyAction_archive_kept
    (hapart : ∀ item' ∈ call.items, call.destOf item' ≠ archiveLocation archive item)
    {p p' : Team (CopyState σ) CopyStatus} (h : Step (copyAction call bucketErrors) p p') :
    p'.shared.objects (archiveLocation archive item) =
      p.shared.objects (archiveLocation archive item) := by
  cases h with
  | @worker i s t hact =>
      obtain ⟨item', hitem', hstep⟩ := hact
      rcases hstep.objects_cases with hsame | ⟨_, _, _, _, _, hput⟩
      · exact congrFun hsame _
      · have hne := hapart item' (List.mem_of_getElem? hitem')
        exact (congrFun hput _).trans (Function.update_of_ne hne.symm _ _)

theorem RestoreStep.sound (hplain : '/' ∉ item.1)
    (hapart : ∀ item' ∈ call.items, call.destOf item' ≠ archiveLocation archive item)
    (halone : ∀ item' ∈ call.items, call.destOf item' = dest →
      call.sourceOf item' = archiveLocation archive item)
    (hdest : ∃ item' ∈ call.items, call.destOf item' = dest)
    (hstep : RestoreStep archive sha256 named call bucketErrors w w')
    (h : w.Sound archive call before item obj dest) :
    w'.Sound archive call before item obj dest := by
  have hstable : Stable (copyAction call bucketErrors)
      (CopyInvariant call before (archiveLocation archive item) dest)
      (CopyAssertion call before (archiveLocation archive item) dest) :=
    copyStable (fun item' hitem' hself ↦ absurd hself (hapart item' hitem')) halone
  obtain ⟨hordered, hfrozen, hholds⟩ := h
  cases hstep with
  | @worker p step =>
      refine ⟨hordered, ⟨?_, hfrozen.2⟩, hstable.step hholds step⟩
      exact (copyAction_archive_kept hapart step).trans hfrozen.1
  | @others system step apart =>
      have hfrozen' := step.frozen hordered hplain hfrozen
      obtain ⟨⟨hreadable, hfilled, hkept⟩, hassert⟩ := hholds
      obtain ⟨item', hitem', rfl⟩ := hdest
      have hsame : system.objects (call.destOf item') = w.system.objects (call.destOf item') :=
        apart item' hitem'
      have hdelivered : Delivered before (archiveLocation archive item) (call.destOf item')
          w.system.objects → Delivered before (archiveLocation archive item)
            (call.destOf item') system.objects := by
        rintro ⟨o, obj', ho, hobj', hbytes⟩
        exact ⟨o, obj', ho, hsame.trans hobj', hbytes⟩
      refine ⟨step.ordered hordered, hfrozen', ⟨?_, ?_, ?_⟩, fun i item'' hitem'' hdest'' ↦ ?_⟩
      · refine Eq.trans ?_ hreadable
        exact congrArg _ (hfrozen'.1.trans hfrozen.1.symm)
      · exact hfilled.imp hsame.trans hdelivered
      · exact fun hkeep hthere ↦ hsame.trans (hkept hkeep hthere)
      · refine (hassert i item'' hitem'' hdest'').mono (fun hthere ↦ ?_) hdelivered
        exact fun hnone ↦ hthere (hsame.symm.trans hnone)

theorem RestoreRun.Sound.reachable (hplain : '/' ∉ item.1)
    (hapart : ∀ item' ∈ call.items, call.destOf item' ≠ archiveLocation archive item)
    (halone : ∀ item' ∈ call.items, call.destOf item' = dest →
      call.sourceOf item' = archiveLocation archive item)
    (hdest : ∃ item' ∈ call.items, call.destOf item' = dest)
    (hrun : Relation.ReflTransGen (RestoreStep archive sha256 named call bucketErrors) w w')
    (h : w.Sound archive call before item obj dest) :
    w'.Sound archive call before item obj dest := by
  induction hrun with
  | refl => exact h
  | tail _ hstep ih => exact hstep.sound hplain hapart halone hdest ih

/-! ## What comes back -/

/-- Items of other buckets are restored neither over the archive copy nor to where the item
came from. -/
def RestoresApart (store : Str → σ) (body : RestoreFromArchiveBody) (archive : σ)
    (item : Str × Str) : Prop :=
  ∀ copy ∈ body.items, copy.bucket ≠ archiveBucketName →
    (restoreFromArchive store body).destOf (copy.bucket, copy.key) ≠
        archiveLocation archive item ∧
      (restoreFromArchive store body).destOf (copy.bucket, copy.key) ≠
        restoredLocation store body item

omit [DecidableEq σ] in
theorem archivedCopy_of_destOf {store : Str → σ} {body : RestoreFromArchiveBody}
    (hvalid : validateRestoreBody body = .ok ())
    (hothers : RestoresApart store body archive item) {item' : Str × Str}
    (hitem' : item' ∈ (restoreFromArchive store body).items)
    (hdest : (restoreFromArchive store body).destOf item' = restoredLocation store body item) :
    item' = archivedCopy item := by
  obtain ⟨copy, hcopy, rfl⟩ := List.mem_map.mp hitem'
  have harchived : copy.bucket = archiveBucketName := by
    by_contra hother
    exact (hothers copy hcopy hother).2 hdest
  obtain ⟨bucket, key, hkey, hbucket⟩ :=
    List.eq_append_cons_of_mem (slash_mem_of_valid hvalid hcopy)
  have hparts : partition '/' copy.key = (bucket, key) := by
    rw [hkey]
    exact partition_append hbucket
  obtain ⟨_, hfst, hsnd⟩ := Location.mk.inj hdest
  have hitem : (bucket, key) = item := by
    rw [← hparts]
    exact Prod.ext hfst hsnd
  rw [archivedCopy, ← hitem, archiveDestKey, ← hkey, harchived]

omit [DecidableEq σ] in
theorem destOf_ne_archiveLocation {store : Str → σ} {body : RestoreFromArchiveBody}
    (hvalid : validateRestoreBody body = .ok ())
    (hothers : RestoresApart store body archive item) {item' : Str × Str}
    (hitem' : item' ∈ (restoreFromArchive store body).items) :
    (restoreFromArchive store body).destOf item' ≠ archiveLocation archive item := by
  obtain ⟨copy, hcopy, rfl⟩ := List.mem_map.mp hitem'
  intro hdest
  have harchived : copy.bucket = archiveBucketName := by
    by_contra hother
    exact (hothers copy hcopy hother).1 hdest
  have hbucket : restoreDestBucket copy.bucket copy.key = archiveBucketName :=
    congrArg Location.bucket hdest
  exact restoreDestBucket_ne hvalid hcopy (hbucket.trans harchived.symm)

/-- An object whose deletion was asked for comes back from the archive as it was, whatever
runs go on before and during the restore, unless an object in its place is to be kept. -/
theorem restore_returns_archived (hsha : Function.Injective sha256) {s₀ s : ArchiveSystem σ δ}
    (hstart : IsArchiveStart archive named s₀)
    (hreach : Relation.ReflTransGen (ArchiveStep archive sha256 named) s₀ s) {r i : ℕ}
    {run : ArchiveRun σ δ} (hrun : s.runs r = some run) (hitem : run.items[i]? = some item)
    {source : ObjectHead} (happroved : run.verify i = .approved source) {store : Str → σ}
    {body : RestoreFromArchiveBody} (hvalid : validateRestoreBody body = .ok ())
    (hsource : store body.sourceProvider = archive)
    (hothers : RestoresApart store body archive item) :
    ∃ obj, (∀ o, s.objects (run.sourceOf item) = some o → o.bytes = obj.bytes) ∧
      ∀ s₁, Relation.ReflTransGen (ArchiveStep archive sha256 named) s s₁ →
        ∀ bucketErrors w, Relation.ReflTransGen (RestoreStep archive sha256 named
          (restoreFromArchive store body) bucketErrors) (.start s₁) w →
        ∀ j, (restoreFromArchive store body).items[j]? = some (archivedCopy item) →
          w.objects (archiveLocation archive item) = some obj ∧
          ∀ result, w.status j = .done result → result.success = true →
            (body.overwrite = true ∨ s₁.objects (restoredLocation store body item) = none →
              ∃ o, w.objects (restoredLocation store body item) = some o ∧
                o.bytes = obj.bytes) ∧
            (body.overwrite = false → s₁.objects (restoredLocation store body item) ≠ none →
              w.objects (restoredLocation store body item) =
                s₁.objects (restoredLocation store body item)) := by
  have hinv : Archived archive sha256 named s := hstart.archived.reachable hsha hreach
  have hverified := hinv.verified r run hrun i item hitem
  rw [happroved] at hverified
  obtain ⟨obj, hfrozen, hbytes⟩ := hverified
  have hplain := (hinv.ordered r run hrun).plain item (List.mem_of_getElem? hitem)
  refine ⟨obj, hbytes, fun s₁ hlater bucketErrors w hrestore j hj ↦ ?_⟩
  have hordered : ∀ r run, s₁.runs r = some run → run.Ordered :=
    (hinv.reachable hsha hlater).ordered
  have hfrozen₁ := hfrozen.reachable hinv.ordered hplain hlater
  have hdest : (restoreFromArchive store body).destOf (archivedCopy item) =
      restoredLocation store body item := destOf_archivedCopy hplain
  have hmem := List.mem_of_getElem? hj
  have hstartSound : (RestoreRun.start s₁).Sound archive (restoreFromArchive store body)
      s₁.objects item obj (restoredLocation store body item) :=
    ⟨hordered, hfrozen₁, ⟨rfl, .inl rfl, fun _ _ ↦ rfl⟩, fun _ _ _ _ ↦ trivial⟩
  obtain ⟨_, hkept, hholds⟩ := hstartSound.reachable hplain
    (fun item' hitem' ↦ destOf_ne_archiveLocation hvalid hothers hitem')
    (fun item' hitem' hsame ↦ archivedCopy_of_destOf hvalid hothers hitem' hsame ▸
      sourceOf_archivedCopy hsource item) ⟨_, hmem, hdest⟩ hrestore
  obtain ⟨⟨_, hfilled, hold⟩, hassert⟩ := hholds
  refine ⟨hkept.1, fun result hdone hsuccess ↦ ⟨fun hfree ↦ ?_, fun hkeep hthere ↦ ?_⟩⟩
  · have hdelivered : Delivered s₁.objects (archiveLocation archive item)
        (restoredLocation store body item) w.objects := by
      have hprogress := hassert j _ hj hdest
      have hstatus : w.team.status j = .done result := hdone
      rw [hstatus] at hprogress
      rcases hprogress with ⟨_, hdelivered⟩ | ⟨_, hkeep, hthere⟩ | ⟨e, rfl⟩
      · exact hdelivered
      · have hnone := hfree.resolve_left fun hoverwrite ↦ nomatch hkeep.symm.trans hoverwrite
        exact hfilled.resolve_left fun hsame ↦ hthere (hsame.trans hnone)
      · exact absurd hsuccess Bool.false_ne_true
    obtain ⟨o, restored, ho, hrestored, hsame⟩ := hdelivered
    obtain rfl := Option.some.inj (ho.symm.trans hfrozen₁.1)
    exact ⟨restored, hrestored, hsame⟩
  · exact hold hkeep hthere

/-- The workers of the restore may go on while no other does. -/
theorem restores_alone {p : Team (CopyState σ) CopyStatus}
    (hrun : Relation.ReflTransGen (Step (copyAction call bucketErrors)) w.team p) :
    Relation.ReflTransGen (RestoreStep archive sha256 named call bucketErrors) w (w.ofTeam p) := by
  induction hrun with
  | refl => exact .refl
  | @tail p q _ hstep ih => exact ih.tail (.worker (w := w.ofTeam p) hstep)

end Invariant

/-! ## One school file -/

/-- The archived file, and another one from an older archive. -/
def schoolRestore : RestoreFromArchiveBody :=
  ⟨[⟨archiveBucketName, "school/file".toList, .blank, none, none, none, .blank⟩,
      ⟨"attic".toList, "school/photo".toList, .blank, none, none, none, .blank⟩],
    "wasabi".toList, "do".toList, false, false⟩

theorem schoolRestore_valid : validateRestoreBody schoolRestore = .ok () := by
  decide

theorem schoolRestore_restoresApart :
    RestoresApart id schoolRestore "wasabi".toList schoolItem := by
  unfold RestoresApart
  decide

/-- The objects once the source is deleted. -/
def schoolErased : Objects Str := Function.update schoolArchived schoolLocation none

/-- The run by then. -/
def schoolErasing : ArchiveRun Str (List UInt8) :=
  { schoolRun .verifying (.done schoolCopied) (.approved schoolObject.head) with
    verify := Function.update (schoolRun .verifying (.done schoolCopied)
      (.approved schoolObject.head)).verify 0 (.done schoolDeleted) }

theorem schoolRun_erases :
    ArchiveStep "wasabi".toList id (fun _ _ ↦ [1])
      (.single schoolArchived
        (schoolRun .verifying (.done schoolCopied) (.approved schoolObject.head)))
      (.single schoolErased schoolErasing) := by
  have happroved : (schoolRun .verifying (.done schoolCopied)
      (.approved schoolObject.head)).verify 0 = .approved schoolObject.head := by
    simp only [schoolRun, Function.update_self]
  have hcopied : (schoolRun .verifying (.done schoolCopied)
      (.approved schoolObject.head)).copy 0 = .done schoolCopied := by
    simp only [schoolRun, Function.update_self]
  exact ArchiveSystem.single_works (.delete rfl rfl hcopied happroved .deleted)

theorem restore_returns_archived_school :
    ∃ (s₁ : ArchiveSystem Str (List UInt8)) (w : RestoreRun Str (List UInt8)),
      s₁.objects schoolLocation = none ∧
      Relation.ReflTransGen (RestoreStep "wasabi".toList id (fun _ _ ↦ [1])
        (restoreFromArchive id schoolRestore) fun _ ↦ none) (.start s₁) w ∧
      (∃ result, w.status 0 = .done result ∧ result.success = true) ∧
      ∃ o, w.objects schoolLocation = some o ∧ o.bytes = [1] := by
  have hne : schoolLocation ≠ archiveLocation "wasabi".toList schoolItem := by decide
  have herased : schoolErased schoolLocation = none := by
    simp only [schoolErased, Function.update_self]
  have hsource : schoolArchived schoolLocation = some schoolObject := by
    simp only [schoolArchived, schoolSystem, Function.update_of_ne hne, Function.update_self]
  have harchive : schoolErased (archiveLocation "wasabi".toList schoolItem) =
      some schoolObject := by
    simp only [schoolErased, schoolArchived, Function.update_of_ne hne.symm, Function.update_self]
  have hrun : (ArchiveSystem.single schoolArchived (schoolRun .verifying (.done schoolCopied)
      (.approved schoolObject.head))).runs 0 = some (schoolRun .verifying (.done schoolCopied)
      (.approved schoolObject.head)) := by
    simp only [ArchiveSystem.single, Function.update_self]
  have happroved : (schoolRun .verifying (.done schoolCopied)
      (.approved schoolObject.head)).verify 0 = .approved schoolObject.head := by
    simp only [schoolRun, Function.update_self]
  have hstore : id schoolRestore.sourceProvider = "wasabi".toList := rfl
  obtain ⟨obj, hbytes, hrestored⟩ := restore_returns_archived Function.injective_id
    schoolSystem_start schoolSystem_approved hrun rfl happroved schoolRestore_valid hstore
    schoolRestore_restoresApart
  let call := restoreFromArchive id schoolRestore
  let s : CopyState Str := ⟨schoolErased, fun _ ↦ true⟩
  have hthrough : CopyAlone call (fun _ ↦ none) (archivedCopy schoolItem) (s, .waiting)
      (s, .transfer) := .notFound rfl rfl herased
  have hget : CopyAlone call (fun _ ↦ none) (archivedCopy schoolItem) (s, .transfer)
      (s, .fetched schoolObject false) := .get harchive
  have hupload : CopyAlone call (fun _ ↦ none) (archivedCopy schoolItem)
      (s, .fetched schoolObject false) (s.put schoolLocation schoolObject,
        .done (call.copied (archivedCopy schoolItem))) := .upload ⟨rfl, fun h ↦ absurd rfl h⟩
  have halone := reaches_of_alone (i := 0) rfl (.tail (.tail (.single hthrough) hget) hupload)
  have hrestore : Relation.ReflTransGen (RestoreStep "wasabi".toList id (fun _ _ ↦ [1]) call
      fun _ ↦ none) (.start (.single schoolErased schoolErasing)) _ := restores_alone halone
  have hfinal := hrestored _ (.single schoolRun_erases) (fun _ ↦ none) _ hrestore 0 rfl
  have hdone : Function.update (fun _ ↦ CopyStatus.waiting) 0
      (.done (call.copied (archivedCopy schoolItem))) 0 =
        .done (call.copied (archivedCopy schoolItem)) := Function.update_self _ _ _
  obtain ⟨o, ho, hsame⟩ := (hfinal.2 _ hdone rfl).1 (.inr herased)
  exact ⟨_, _, herased, hrestore, ⟨_, hdone, rfl⟩, o, ho,
    hsame.trans (hbytes schoolObject hsource).symm⟩

end StorageReconciler
