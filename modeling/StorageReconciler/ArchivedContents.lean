import StorageReconciler.ArchiveRuns

/-!
# What the archive holds when a source is deleted

Once a source was compared with its archive, no run may write there any more: the
runs that could are excluded by the guard, and a later one finds the archive
present.  A source that is then found unchanged has the bytes of the archive.
-/

namespace StorageReconciler

open Strings

variable {σ δ : Type*}

/-! ## The order of the phases -/

namespace ArchiveRun

/-- The items that a run keeps from other runs. -/
def keys (run : ArchiveRun σ δ) : Option (Finset (Str × Str)) :=
  if run.phase = .finished then none else some run.items.toFinset

/-- Items are accepted before they are copied, and copied before they are verified. -/
structure Ordered (run : ArchiveRun σ δ) : Prop where
  plain : ∀ item ∈ run.items, '/' ∉ item.1
  accepted : run.phase = .copying ∨ run.phase = .verifying →
    ∀ item ∈ run.items, item.1 ≠ archiveBucketName
  copying : ∀ i item, run.items[i]? = some item → (run.copy i).isBusy = true →
    run.phase = .copying
  verifying : ∀ i, (run.verify i).isBusy = true → run.phase = .verifying

theorem start_ordered {items : List (Str × Str)} {source : σ} {bucketErrors : Str → Option Str}
    (plain : ∀ item ∈ items, '/' ∉ item.1) :
    (start items source bucketErrors : ArchiveRun σ δ).Ordered := by
  constructor
  · exact plain
  · rintro (hphase | hphase) <;> exact nomatch hphase
  · intro i item _ hbusy
    exact absurd hbusy Bool.false_ne_true
  · intro i hbusy
    exact absurd hbusy Bool.false_ne_true

end ArchiveRun

theorem CopyStatus.isBusy_of_isTransferring {t : CopyStatus} (h : t.isTransferring = true) :
    t.isBusy = true := by
  cases t <;> first | rfl | exact absurd h Bool.false_ne_true

section Locations

variable {archive : σ} {item item' : Str × Str}

theorem archiveLocation_inj (hitem : '/' ∉ item.1) (hitem' : '/' ∉ item'.1)
    (h : archiveLocation archive item = archiveLocation archive item') : item = item' := by
  have hkeys : archiveDestKey item.1 item.2 = archiveDestKey item'.1 item'.2 :=
    congrArg Location.key h
  have hparts := congrArg (partition '/') hkeys
  rwa [archiveDestKey, archiveDestKey, partition_append hitem, partition_append hitem'] at hparts

theorem isArchive_archiveLocation : IsArchive archive (archiveLocation archive item) :=
  ⟨rfl, rfl⟩

theorem ne_archiveLocation {l : Location σ} (hl : ¬IsArchive archive l) :
    l ≠ archiveLocation archive item := by
  rintro rfl
  exact hl isArchive_archiveLocation

theorem ArchiveRun.not_isArchive_sourceOf {run : ArchiveRun σ δ}
    (h : item.1 ≠ archiveBucketName) : ¬IsArchive archive (run.sourceOf item) :=
  fun harchive ↦ h harchive.2

end Locations

variable [DecidableEq σ] {archive : σ} {sha256 : List UInt8 → δ}
  {named : Location σ → ObjectHead → List UInt8}

section Run

variable {objects objects' : Objects σ} {run run' : ArchiveRun σ δ} {item : Str × Str}

theorem RunStep.items_eq (h : RunStep archive sha256 named objects run objects' run') :
    run'.items = run.items ∧ run'.source = run.source := by
  cases h <;> exact ⟨rfl, rfl⟩

theorem RunStep.keys_eq (h : RunStep archive sha256 named objects run objects' run') :
    run'.keys = run.keys := by
  cases h with
  | begins phase => simp [ArchiveRun.keys, phase]
  | copies phase => simp [ArchiveRun.keys, phase]
  | verifies phase => simp [ArchiveRun.keys, phase]
  | verify phase => simp [ArchiveRun.keys, phase]
  | delete phase => simp [ArchiveRun.keys, phase]

theorem RunStep.ordered (h : RunStep archive sha256 named objects run objects' run')
    (hordered : run.Ordered) : run'.Ordered := by
  cases h with
  | begins phase accepted =>
      refine ⟨hordered.plain, fun _ ↦ accepted, fun _ _ _ _ ↦ rfl, fun i hbusy ↦ ?_⟩
      exact absurd (phase.symm.trans (hordered.verifying i hbusy)) (by decide)
  | copies phase =>
      exact ⟨hordered.plain, hordered.accepted, fun _ _ _ _ ↦ phase, hordered.verifying⟩
  | verifies phase copied =>
      refine ⟨hordered.plain, fun _ ↦ hordered.accepted (.inl phase), fun i item hitem hbusy ↦ ?_,
        fun _ _ ↦ rfl⟩
      obtain ⟨hi, _⟩ := List.getElem?_eq_some_iff.mp hitem
      obtain ⟨result, hdone⟩ := copied i hi
      have hidle : (run.copy i).isBusy = false := by rw [hdone]; rfl
      exact absurd (hidle.symm.trans hbusy) Bool.false_ne_true
  | verify phase =>
      exact ⟨hordered.plain, hordered.accepted, hordered.copying, fun _ _ ↦ phase⟩
  | delete phase =>
      exact ⟨hordered.plain, hordered.accepted, hordered.copying, fun _ _ ↦ phase⟩

omit [DecidableEq σ] in
theorem ArchiveRun.destOf_call (run : ArchiveRun σ δ) (archive : σ) (item : Str × Str) :
    (run.call archive).destOf item = archiveLocation archive item := rfl

theorem CopyOne.keeps_present {call : CopyCall σ} {bucketErrors : Str → Option Str}
    {s s' : CopyState σ} {t t' : CopyStatus} (h : CopyOne call bucketErrors item s t s' t')
    (hkeeps : call.overwrite = false) (hthere : s.objects (call.destOf item) ≠ none)
    (hidle : t.isTransferring = false) :
    s'.objects = s.objects ∧ t'.isTransferring = false := by
  cases h with
  | notFound _ _ absent => exact absurd absent hthere
  | force _ overwrites => exact absurd (hkeeps.symm.trans overwrites) Bool.false_ne_true
  | get | getFails | upload | uploadRefused | getAgain | getAgainFails | uploadFails
    | uploadLost => exact absurd hidle.symm Bool.false_ne_true
  | _ => exact ⟨rfl, rfl⟩

theorem DeleteOne.objects_cases {copied : CopyResult} {source : ObjectHead} {l : Location σ}
    {result : ArchiveResult} (h : DeleteOne copied source l objects objects' result) :
    objects' = objects ∨ objects' = Function.update objects l none := by
  cases h with
  | deleted => exact .inr rfl
  | refused => exact .inl rfl
  | lost => exact .inr rfl

/-- An archive object that no worker has found absent is left alone. -/
theorem RunStep.archive_kept (h : RunStep archive sha256 named objects run objects' run')
    (hordered : run.Ordered) (hplain : '/' ∉ item.1) {obj : StoredObject}
    (hthere : objects (archiveLocation archive item) = some obj)
    (hidle : ∀ i, run.items[i]? = some item → (run.copy i).isTransferring = false) :
    objects' (archiveLocation archive item) = some obj ∧
      ∀ i, run'.items[i]? = some item → (run'.copy i).isTransferring = false := by
  cases h with
  | begins => exact ⟨hthere, hidle⟩
  | @copies _ i item' state status phase at_item step =>
      by_cases hsame : item' = item
      · subst hsame
        have hpresent : objects (archiveLocation archive item') ≠ none := by
          rw [hthere]
          exact Option.some_ne_none obj
        obtain ⟨hobjects, hstatus⟩ := step.keeps_present rfl hpresent (hidle i at_item)
        refine ⟨hobjects ▸ hthere, fun j hj ↦ ?_⟩
        change (Function.update run.copy i status j).isTransferring = false
        by_cases hji : j = i
        · rwa [hji, Function.update_self]
        · rw [Function.update_of_ne hji]
          exact hidle j hj
      · constructor
        · rcases step.objects_cases with hobjects | ⟨_, _, _, _, _, hobjects⟩
          · exact hobjects ▸ hthere
          · have hplain' := hordered.plain item' (List.mem_of_getElem? at_item)
            have hne : archiveLocation archive item ≠ archiveLocation archive item' :=
              fun heq ↦ hsame (archiveLocation_inj hplain hplain' heq).symm
            rwa [hobjects, ArchiveRun.destOf_call, Function.update_of_ne hne]
        · intro j hj
          change (Function.update run.copy i status j).isTransferring = false
          have hji : j ≠ i := by
            rintro rfl
            exact hsame (Option.some.inj (at_item.symm.trans hj))
          rw [Function.update_of_ne hji]
          exact hidle j hj
  | verifies => exact ⟨hthere, hidle⟩
  | verify => exact ⟨hthere, hidle⟩
  | @delete _ _ i item' _ _ _ phase at_item _ _ request =>
      refine ⟨?_, hidle⟩
      have hbucket := hordered.accepted (.inr phase) item' (List.mem_of_getElem? at_item)
      rcases request.objects_cases with rfl | rfl
      · exact hthere
      · have helsewhere : ¬IsArchive archive (run.sourceOf item') :=
          ArchiveRun.not_isArchive_sourceOf hbucket
        have hne : archiveLocation archive item ≠ run.sourceOf item' :=
          (ne_archiveLocation helsewhere).symm
        rwa [Function.update_of_ne hne]

/-- A run writes to the archive only; elsewhere it may delete. -/
theorem RunStep.source_kept (h : RunStep archive sha256 named objects run objects' run')
    {l : Location σ} (hl : ¬IsArchive archive l) {o : StoredObject} (ho : objects' l = some o) :
    objects l = some o := by
  cases h with
  | copies phase at_item step =>
      rcases step.objects_cases with hobjects | ⟨_, _, _, _, _, hobjects⟩
      · rwa [hobjects] at ho
      · rwa [hobjects, ArchiveRun.destOf_call,
          Function.update_of_ne (ne_archiveLocation hl)] at ho
  | delete _ _ _ _ request =>
      rcases request.objects_cases with rfl | rfl
      · exact ho
      · rw [Function.update_apply] at ho
        split_ifs at ho
        exact ho
  | _ => exact ho

end Run

/-! ## The guard -/

namespace ArchiveSystem

/-- The runs that are not finished, as the guard sees them. -/
def guard (s : ArchiveSystem σ δ) : ExclusiveRuns.Guard (Str × Str) where
  active := s.active
  admitted r := (s.runs r).bind ArchiveRun.keys

omit [DecidableEq σ] in
theorem guard_update (s : ArchiveSystem σ δ) (r : ℕ) (run : ArchiveRun σ δ) :
    (fun r' ↦ (Function.update s.runs r (some run) r').bind ArchiveRun.keys) =
      Function.update s.guard.admitted r run.keys :=
  Function.comp_update (fun run? ↦ Option.bind run? ArchiveRun.keys) s.runs r (some run)

end ArchiveSystem

section System

variable {s s' : ArchiveSystem σ δ} {r : ℕ} {run : ArchiveRun σ δ} {i : ℕ} {item : Str × Str}

/-- Runs enter and leave as the guard says, and all other steps are hidden from it. -/
theorem ArchiveStep.guard_step (h : ArchiveStep archive sha256 named s s') :
    s'.guard = s.guard ∨ ExclusiveRuns.Step s.guard s'.guard := by
  cases h with
  | client => exact .inl rfl
  | @enter r items source bucketErrors unused free plain =>
      have hunused : s.guard.admitted r = none := by simp [ArchiveSystem.guard, unused]
      have hfree : ∀ k ∈ items.toFinset, k ∉ s.guard.active :=
        fun k hk ↦ free k (List.mem_toFinset.mp hk)
      have hstep := ExclusiveRuns.Step.enter hunused hfree
      refine .inr ?_
      convert hstep using 1
      exact congrArg _ (s.guard_update r (.start items source bucketErrors))
  | @works r run run' objects running step =>
      refine .inl (congrArg (ExclusiveRuns.Guard.mk s.active) ?_)
      have hsame : s.guard.admitted r = run'.keys := by
        simp [ArchiveSystem.guard, running, step.keys_eq]
      apply (s.guard_update r run').trans
      rw [← hsame]
      exact Function.update_eq_self r _
  | @leaves r run running phase copied verified =>
      have hrunning : s.guard.admitted r = some run.items.toFinset := by
        simp [ArchiveSystem.guard, running, ArchiveRun.keys, phase]
      refine .inr ?_
      convert ExclusiveRuns.Step.leave hrunning using 1
      exact congrArg _ (s.guard_update r { run with phase := .finished })

/-! ## Frozen archive objects -/

variable (archive sha256 named)

/-- The archive holds the object of an item, and no worker may replace it. -/
def Frozen (s : ArchiveSystem σ δ) (item : Str × Str) (obj : StoredObject) : Prop :=
  s.objects (archiveLocation archive item) = some obj ∧
    ∀ r run, s.runs r = some run → ∀ i, run.items[i]? = some item →
      (run.copy i).isTransferring = false

/-- What a worker knows that verifies an item with its source at a location. -/
def Verified (s : ArchiveSystem σ δ) (item : Str × Str) (l : Location σ) :
    VerifyStatus δ → Prop
  | .hashed source digest => digest = digestOf sha256 (named l source)
  | .compared source => ∃ obj, Frozen archive s item obj ∧ obj.bytes = named l source
  | .approved _ => ∃ obj, Frozen archive s item obj ∧
      ∀ o, s.objects l = some o → o.bytes = obj.bytes
  | _ => True

/-- The invariant of archive runs. -/
structure Archived (s : ArchiveSystem σ δ) : Prop where
  ordered : ∀ r run, s.runs r = some run → run.Ordered
  exclusive : ExclusiveRuns.Exclusive s.guard
  sources : ∀ l obj, ¬IsArchive archive l → s.objects l = some obj → obj.bytes = named l obj.head
  verified : ∀ r run, s.runs r = some run → ∀ i item, run.items[i]? = some item →
    Verified archive sha256 named s item (run.sourceOf item) (run.verify i)

variable {archive sha256 named}

omit [DecidableEq σ] in
theorem forall_setRun {P : ArchiveRun σ δ → Prop} (h : ∀ r run, s.runs r = some run → P run)
    {run' : ArchiveRun σ δ} (hrun : P run') :
    ∀ r' run, (s.setRun r run').runs r' = some run → P run := by
  refine (Function.forall_update_iff s.runs fun _ run? ↦ ∀ run, run? = some run → P run).mpr
    ⟨?_, fun r' _ ↦ h r'⟩
  rintro run ⟨⟩
  exact hrun

theorem ArchiveStep.ordered (h : ArchiveStep archive sha256 named s s')
    (hordered : ∀ r run, s.runs r = some run → run.Ordered) :
    ∀ r run, s'.runs r = some run → run.Ordered := by
  cases h with
  | client => exact hordered
  | enter _ _ plain => exact forall_setRun hordered (ArchiveRun.start_ordered plain)
  | works running step => exact forall_setRun hordered (step.ordered (hordered _ _ running))
  | leaves running phase copied verified =>
      have hrun := hordered _ _ running
      refine forall_setRun hordered ⟨hrun.plain, ?_, fun i item _ hbusy ↦ ?_, fun i hbusy ↦ ?_⟩
      · rintro (hphase | hphase) <;> exact nomatch hphase
      · exact absurd ((copied i).symm.trans hbusy) Bool.false_ne_true
      · exact absurd ((verified i).symm.trans hbusy) Bool.false_ne_true

theorem ArchiveStep.frozen (h : ArchiveStep archive sha256 named s s')
    (hordered : ∀ r run, s.runs r = some run → run.Ordered) (hplain : '/' ∉ item.1)
    {obj : StoredObject} (hfrozen : Frozen archive s item obj) : Frozen archive s' item obj := by
  obtain ⟨hthere, hidle⟩ := hfrozen
  cases h with
  | @client l obj? elsewhere _ _ =>
      have hne : archiveLocation archive item ≠ l := (ne_archiveLocation elsewhere).symm
      exact ⟨(Function.update_of_ne hne obj? s.objects).trans hthere, hidle⟩
  | enter _ _ _ => exact ⟨hthere, forall_setRun hidle fun _ _ ↦ rfl⟩
  | works running step =>
      obtain ⟨hthere', hidle'⟩ :=
        step.archive_kept (hordered _ _ running) hplain hthere (hidle _ _ running)
      exact ⟨hthere', forall_setRun hidle hidle'⟩
  | leaves running phase _ _ =>
      have hrun := hidle _ _ running
      exact ⟨hthere, forall_setRun hidle hrun⟩

/-- A source is written by other clients only, who name its content and keep away from
sources that are about to be deleted. -/
theorem ArchiveStep.source_kept (h : ArchiveStep archive sha256 named s s') {l : Location σ}
    (hl : ¬IsArchive archive l) {o : StoredObject} (ho : s'.objects l = some o) :
    s.objects l = some o ∨ o.bytes = named l o.head ∧
      ∀ r run i item source, s.runs r = some run → run.items[i]? = some item →
        run.verify i = .approved source → run.sourceOf item ≠ l := by
  cases h with
  | @client l' obj? _ names quiet =>
      change Function.update s.objects l' obj? l = some o at ho
      by_cases hsame : l = l'
      · subst hsame
        rw [Function.update_self] at ho
        exact .inr ⟨names o ho, quiet⟩
      · rw [Function.update_of_ne hsame] at ho
        exact .inl ho
  | enter => exact .inl ho
  | works running step => exact .inl (step.source_kept hl ho)
  | leaves => exact .inl ho

/-! ## The invariant -/

omit [DecidableEq σ] in
theorem Verified.mono {l : Location σ} {status : VerifyStatus δ}
    (hfrozen : ∀ obj, Frozen archive s item obj → Frozen archive s' item obj)
    (hsource : ∀ source, status = .approved source → ∀ o, s'.objects l = some o →
      s.objects l = some o)
    (h : Verified archive sha256 named s item l status) :
    Verified archive sha256 named s' item l status := by
  cases status with
  | hashed source digest => exact h
  | compared source =>
      obtain ⟨obj, hobj, hbytes⟩ := h
      exact ⟨obj, hfrozen obj hobj, hbytes⟩
  | approved source =>
      obtain ⟨obj, hobj, hbytes⟩ := h
      exact ⟨obj, hfrozen obj hobj, fun o ho ↦ hbytes o (hsource source rfl o ho)⟩
  | _ => exact trivial

omit [DecidableEq σ] in
/-- A run that verifies an item has copied it, and the guard admits no other run with it. -/
theorem Archived.frozen (hinv : Archived archive sha256 named s) (hrun : s.runs r = some run)
    (hphase : run.phase = .verifying) (hitem : run.items[i]? = some item) {obj : StoredObject}
    (hthere : s.objects (archiveLocation archive item) = some obj) :
    Frozen archive s item obj := by
  refine ⟨hthere, fun r' run' hrun' i' hitem' ↦ ?_⟩
  by_contra htransferring
  have hbusy := CopyStatus.isBusy_of_isTransferring (Bool.eq_true_of_not_eq_false htransferring)
  have hphase' := (hinv.ordered r' run' hrun').copying i' item hitem' hbusy
  have hadmitted : s.guard.admitted r = some run.items.toFinset := by
    simp [ArchiveSystem.guard, ArchiveRun.keys, hrun, hphase]
  have hadmitted' : s.guard.admitted r' = some run'.items.toFinset := by
    simp [ArchiveSystem.guard, ArchiveRun.keys, hrun', hphase']
  have hsame : r = r' := by
    apply hinv.exclusive.apart r r' _ _ item hadmitted hadmitted'
    · exact List.mem_toFinset.mpr (List.mem_of_getElem? hitem)
    · exact List.mem_toFinset.mpr (List.mem_of_getElem? hitem')
  subst hsame
  obtain rfl := Option.some.inj (hrun.symm.trans hrun')
  exact absurd (hphase.symm.trans hphase') (by decide)

omit [DecidableEq σ] in
theorem Archived.not_isArchive_source (hinv : Archived archive sha256 named s)
    (hrun : s.runs r = some run) (hphase : run.phase = .verifying)
    (hitem : run.items[i]? = some item) : ¬IsArchive archive (run.sourceOf item) := by
  apply ArchiveRun.not_isArchive_sourceOf
  exact (hinv.ordered r run hrun).accepted (.inr hphase) item (List.mem_of_getElem? hitem)

omit [DecidableEq σ] in
theorem VerifyOne.verified (hsha : Function.Injective sha256)
    (hinv : Archived archive sha256 named s) (hrun : s.runs r = some run)
    (hphase : run.phase = .verifying) (hitem : run.items[i]? = some item) {copied : CopyResult}
    {t t' : VerifyStatus δ} (h : VerifyOne archive sha256 named s.objects run item copied t t')
    (hverified : Verified archive sha256 named s item (run.sourceOf item) t) :
    Verified archive sha256 named s item (run.sourceOf item) t' := by
  cases h with
  | readSource _ _ reads => exact congrArg (digestOf sha256) reads
  | readArchive there same _ =>
      refine ⟨_, hinv.frozen hrun hphase hitem there, ?_⟩
      exact hsha (congrArg Prod.snd (same.symm.trans hverified))
  | headAgain there unchanged =>
      obtain ⟨obj, hfrozen, hbytes⟩ := hverified
      refine ⟨obj, hfrozen, fun o ho ↦ ?_⟩
      obtain rfl := Option.some.inj (there.symm.trans ho)
      have hnamed := hinv.sources _ _ (hinv.not_isArchive_source hrun hphase hitem) there
      rw [unchanged] at hnamed
      exact hnamed.trans hbytes.symm
  | _ => exact trivial

/-- What a worker knows stays true, whoever takes a step. -/
theorem ArchiveStep.verified_kept (h : ArchiveStep archive sha256 named s s')
    (hinv : Archived archive sha256 named s) (hrun : s.runs r = some run)
    (hitem : run.items[i]? = some item) :
    Verified archive sha256 named s' item (run.sourceOf item) (run.verify i) := by
  have hordered := hinv.ordered r run hrun
  have hplain := hordered.plain item (List.mem_of_getElem? hitem)
  refine (hinv.verified r run hrun i item hitem).mono
    (fun obj ↦ h.frozen hinv.ordered hplain) fun source happroved o ho ↦ ?_
  have hbusy : (run.verify i).isBusy = true := by rw [happroved]; rfl
  have helsewhere := hinv.not_isArchive_source hrun (hordered.verifying i hbusy) hitem
  rcases h.source_kept helsewhere ho with hold | ⟨_, hquiet⟩
  · exact hold
  · exact absurd rfl (hquiet r run i item source hrun hitem happroved)

theorem ArchiveStep.verified (hsha : Function.Injective sha256)
    (h : ArchiveStep archive sha256 named s s') (hinv : Archived archive sha256 named s) :
    ∀ r run, s'.runs r = some run → ∀ i item, run.items[i]? = some item →
      Verified archive sha256 named s' item (run.sourceOf item) (run.verify i) := by
  have hkept : ∀ r run, s.runs r = some run → ∀ i item, run.items[i]? = some item →
      Verified archive sha256 named s' item (run.sourceOf item) (run.verify i) :=
    fun r run hrun i item hitem ↦ h.verified_kept hinv hrun hitem
  have hfrozen : ∀ item obj, '/' ∉ item.1 → Frozen archive s item obj →
      Frozen archive s' item obj :=
    fun item obj hplain ↦ h.frozen hinv.ordered hplain
  cases h with
  | client => exact hkept
  | enter => exact forall_setRun hkept fun _ _ _ ↦ trivial
  | @works r run _ _ running step =>
      apply forall_setRun hkept
      cases step with
      | @verify _ i item copied status phase at_item copy step =>
          intro j item' hitem'
          change Verified _ _ _ _ _ _ (Function.update run.verify i status j)
          by_cases hji : j = i
          · subst hji
            obtain rfl := Option.some.inj (at_item.symm.trans hitem')
            have hplain := (hinv.ordered r run running).plain item (List.mem_of_getElem? at_item)
            rw [Function.update_self]
            have hown := step.verified hsha hinv running phase at_item
              (hinv.verified r run running j item at_item)
            exact hown.mono (fun obj ↦ hfrozen item obj hplain) fun _ _ _ ho ↦ ho
          · rw [Function.update_of_ne hji]
            exact hkept r run running j item' hitem'
      | @delete _ _ i item _ _ result _ _ _ _ _ =>
          intro j item' hitem'
          change Verified _ _ _ _ _ _ (Function.update run.verify i (.done result) j)
          by_cases hji : j = i
          · rw [hji, Function.update_self]
            exact trivial
          · rw [Function.update_of_ne hji]
            exact hkept r run running j item' hitem'
      | _ => exact hkept r run running
  | leaves running _ _ _ =>
      have hrun := hkept _ _ running
      exact forall_setRun hkept hrun

theorem ArchiveStep.archived (hsha : Function.Injective sha256)
    (h : ArchiveStep archive sha256 named s s') (hinv : Archived archive sha256 named s) :
    Archived archive sha256 named s' := by
  refine ⟨h.ordered hinv.ordered, ?_, fun l obj hl hobj ↦ ?_, h.verified hsha hinv⟩
  · rcases h.guard_step with hsame | hstep
    · rw [hsame]
      exact hinv.exclusive
    · exact hinv.exclusive.step hstep
  · rcases h.source_kept hl hobj with hold | ⟨hnamed, _⟩
    · exact hinv.sources l obj hl hold
    · exact hnamed

omit [DecidableEq σ] in
theorem IsArchiveStart.archived (h : IsArchiveStart archive named s) :
    Archived archive sha256 named s := by
  refine ⟨fun r run hrun ↦ ?_, ?_, h.named, fun r run hrun ↦ ?_⟩
  · exact absurd ((h.runs r).symm.trans hrun) (Option.some_ne_none run).symm
  · have hguard : s.guard = ⟨∅, fun _ ↦ none⟩ := by
      simp [ArchiveSystem.guard, h.active, h.runs]
    rw [hguard]
    exact ExclusiveRuns.exclusive_start
  · exact absurd ((h.runs r).symm.trans hrun) (Option.some_ne_none run).symm

theorem Archived.reachable (hsha : Function.Injective sha256)
    (hinv : Archived archive sha256 named s)
    (hreach : Relation.ReflTransGen (ArchiveStep archive sha256 named) s s') :
    Archived archive sha256 named s' := by
  induction hreach with
  | refl => exact hinv
  | tail _ hstep ih => exact hstep.archived hsha ih

theorem Frozen.reachable (hordered : ∀ r run, s.runs r = some run → run.Ordered)
    (hplain : '/' ∉ item.1) {obj : StoredObject} (hfrozen : Frozen archive s item obj)
    (hreach : Relation.ReflTransGen (ArchiveStep archive sha256 named) s s') :
    Frozen archive s' item obj := by
  have hboth : Frozen archive s' item obj ∧ ∀ r run, s'.runs r = some run → run.Ordered := by
    induction hreach with
    | refl => exact ⟨hfrozen, hordered⟩
    | tail _ hstep ih => exact ⟨hstep.frozen ih.2 hplain ih.1, hstep.ordered ih.2⟩
  exact hboth.1

/-- When the deletion of a source is asked for, the archive holds its bytes, and goes on
to hold them. -/
theorem archive_holds_deleted (hsha : Function.Injective sha256) {s₀ : ArchiveSystem σ δ}
    (hstart : IsArchiveStart archive named s₀)
    (hreach : Relation.ReflTransGen (ArchiveStep archive sha256 named) s₀ s)
    (hrun : s.runs r = some run) (hitem : run.items[i]? = some item) {source : ObjectHead}
    (happroved : run.verify i = .approved source) :
    ∃ obj, s.objects (archiveLocation archive item) = some obj ∧
      (∀ o, s.objects (run.sourceOf item) = some o → o.bytes = obj.bytes) ∧
      ∀ s', Relation.ReflTransGen (ArchiveStep archive sha256 named) s s' →
        s'.objects (archiveLocation archive item) = some obj := by
  have hinv : Archived archive sha256 named s := hstart.archived.reachable hsha hreach
  have hverified := hinv.verified r run hrun i item hitem
  rw [happroved] at hverified
  obtain ⟨obj, hfrozen, hbytes⟩ := hverified
  have hplain := (hinv.ordered r run hrun).plain item (List.mem_of_getElem? hitem)
  refine ⟨obj, hfrozen.1, hbytes, fun s' hlater ↦ ?_⟩
  exact (hfrozen.reachable hinv.ordered hplain hlater).1

end System

/-! ## One school file -/

/-- The system with one run, which holds its items. -/
def ArchiveSystem.single (objects : Objects σ) (run : ArchiveRun σ δ) : ArchiveSystem σ δ where
  objects := objects
  active := run.items.toFinset
  runs := Function.update (fun _ ↦ none) 0 (some run)

theorem ArchiveSystem.single_works {objects objects' : Objects σ} {run run' : ArchiveRun σ δ}
    (step : RunStep archive sha256 named objects run objects' run') :
    ArchiveStep archive sha256 named (single objects run) (single objects' run') := by
  have hrunning : (single objects run).runs 0 = some run := by simp [single]
  have hstep := ArchiveStep.works hrunning step
  simpa [single, setRun, step.items_eq] using hstep

def schoolLocation : Location Str := ⟨"do".toList, "school".toList, "file".toList⟩

def schoolObject : StoredObject := ⟨[1], none, [], 0, none⟩

def schoolItem : Str × Str := ("school".toList, "file".toList)

def schoolSystem : ArchiveSystem Str (List UInt8) where
  objects := Function.update (fun _ ↦ none) schoolLocation (some schoolObject)
  active := ∅
  runs _ := none

theorem schoolSystem_start :
    IsArchiveStart "wasabi".toList (fun _ _ ↦ [1]) schoolSystem := by
  refine ⟨rfl, fun _ ↦ rfl, fun l obj _ hobj ↦ ?_⟩
  change Function.update (fun _ ↦ none) schoolLocation (some schoolObject) l = some obj at hobj
  rw [Function.update_apply] at hobj
  split_ifs at hobj
  exact congrArg StoredObject.bytes (Option.some.inj hobj).symm

/-- The run that archives the file, as far as given. -/
def schoolRun (phase : ArchivePhase) (copy : CopyStatus) (verify : VerifyStatus (List UInt8)) :
    ArchiveRun Str (List UInt8) where
  items := [schoolItem]
  source := "do".toList
  bucketErrors _ := none
  phase := phase
  aclSupported _ := true
  copy := Function.update (fun _ ↦ .waiting) 0 copy
  verify := Function.update (fun _ ↦ .waiting) 0 verify

theorem schoolRun_admitted : schoolRun .admitted .waiting .waiting =
    .start [schoolItem] "do".toList fun _ ↦ none := by
  simp [schoolRun, ArchiveRun.start]

theorem schoolRun_copyStep {objects objects' : Objects Str} {t t' : CopyStatus}
    (step : CopyOne ((schoolRun .copying t .waiting).call "wasabi".toList) (fun _ ↦ none)
      schoolItem ⟨objects, fun _ ↦ true⟩ t ⟨objects', fun _ ↦ true⟩ t') :
    RunStep "wasabi".toList id (fun _ _ ↦ [1]) objects (schoolRun .copying t .waiting)
      objects' (schoolRun .copying t' .waiting) := by
  have hrun : { schoolRun .copying t .waiting with
      copy := Function.update (schoolRun .copying t .waiting).copy 0 t' } =
      schoolRun .copying t' .waiting := by simp [schoolRun]
  have hstatus : (schoolRun .copying t .waiting).copy 0 = t := by simp [schoolRun]
  rw [← hstatus] at step
  rw [← hrun]
  exact RunStep.copies (i := 0) rfl rfl step

theorem schoolRun_copies {objects objects' : Objects Str} {t t' : CopyStatus}
    (step : CopyOne ((schoolRun .copying t .waiting).call "wasabi".toList) (fun _ ↦ none)
      schoolItem ⟨objects, fun _ ↦ true⟩ t ⟨objects', fun _ ↦ true⟩ t') :
    ArchiveStep "wasabi".toList id (fun _ _ ↦ [1])
      (.single objects (schoolRun .copying t .waiting))
      (.single objects' (schoolRun .copying t' .waiting)) :=
  ArchiveSystem.single_works (schoolRun_copyStep step)

theorem schoolRun_verifyStep {t t' : VerifyStatus (List UInt8)} {copied : CopyResult}
    {objects : Objects Str}
    (step : VerifyOne "wasabi".toList id (fun _ _ ↦ [1]) objects
      (schoolRun .verifying (.done copied) t) schoolItem copied t t') :
    RunStep "wasabi".toList id (fun _ _ ↦ [1]) objects (schoolRun .verifying (.done copied) t)
      objects (schoolRun .verifying (.done copied) t') := by
  have hrun : { schoolRun .verifying (.done copied) t with
      verify := Function.update (schoolRun .verifying (.done copied) t).verify 0 t' } =
      schoolRun .verifying (.done copied) t' := by simp [schoolRun]
  have hstatus : (schoolRun .verifying (.done copied) t).verify 0 = t := by simp [schoolRun]
  have hcopied : (schoolRun .verifying (.done copied) t).copy 0 = .done copied := by
    simp [schoolRun]
  rw [← hrun]
  exact RunStep.verify rfl rfl hcopied (hstatus.symm ▸ step)

theorem schoolRun_verifies {t t' : VerifyStatus (List UInt8)} {copied : CopyResult}
    {objects : Objects Str}
    (step : VerifyOne "wasabi".toList id (fun _ _ ↦ [1]) objects
      (schoolRun .verifying (.done copied) t) schoolItem copied t t') :
    ArchiveStep "wasabi".toList id (fun _ _ ↦ [1])
      (.single objects (schoolRun .verifying (.done copied) t))
      (.single objects (schoolRun .verifying (.done copied) t')) :=
  ArchiveSystem.single_works (schoolRun_verifyStep step)

/-- The objects once the file is archived. -/
def schoolArchived : Objects Str :=
  Function.update schoolSystem.objects (archiveLocation "wasabi".toList schoolItem)
    (some schoolObject)

def schoolCopied : CopyResult :=
  (ArchiveRun.call (schoolRun .copying .waiting .waiting) "wasabi".toList).copied schoolItem

def schoolDeleted : ArchiveResult := deletedResult schoolCopied schoolObject.head true none

theorem schoolSystem_enters :
    ArchiveStep "wasabi".toList id (fun _ _ ↦ [1]) schoolSystem
      (.single schoolSystem.objects (schoolRun .admitted .waiting .waiting)) := by
  have hplain : ∀ item ∈ [schoolItem], '/' ∉ item.1 := by decide
  have hfree : ∀ item ∈ [schoolItem], item ∉ schoolSystem.active :=
    fun item _ ↦ Finset.notMem_empty item
  rw [schoolRun_admitted]
  exact .enter rfl hfree hplain

theorem schoolSystem_copied :
    Relation.ReflTransGen (ArchiveStep "wasabi".toList id fun _ _ ↦ [1]) schoolSystem
      (.single schoolArchived (schoolRun .copying (.done schoolCopied) .waiting)) := by
  have haccepted : ∀ item ∈ [schoolItem], item.1 ≠ archiveBucketName := by decide
  have hne : archiveLocation "wasabi".toList schoolItem ≠ schoolLocation := by decide
  have habsent : schoolSystem.objects (archiveLocation "wasabi".toList schoolItem) = none := by
    simp only [schoolSystem, Function.update_of_ne hne]
  have hthere : schoolSystem.objects schoolLocation = some schoolObject := by
    simp only [schoolSystem, Function.update_self]
  refine .head schoolSystem_enters ?_
  refine .head (ArchiveSystem.single_works (.begins rfl haccepted)) ?_
  refine .head (schoolRun_copies (.notFound rfl rfl habsent)) ?_
  refine .head (schoolRun_copies (.get hthere)) ?_
  exact .single (schoolRun_copies (.upload ⟨rfl, fun h ↦ absurd rfl h⟩))

theorem schoolSystem_approved :
    Relation.ReflTransGen (ArchiveStep "wasabi".toList id fun _ _ ↦ [1]) schoolSystem
      (.single schoolArchived
        (schoolRun .verifying (.done schoolCopied) (.approved schoolObject.head))) := by
  have hne : schoolLocation ≠ archiveLocation "wasabi".toList schoolItem := by decide
  have hsource : schoolArchived schoolLocation = some schoolObject := by
    simp only [schoolArchived, schoolSystem, Function.update_of_ne hne, Function.update_self]
  have harchive : schoolArchived (archiveLocation "wasabi".toList schoolItem) =
      some schoolObject := by
    simp only [schoolArchived, Function.update_self]
  have hall : ∀ i < 1, ∃ result,
      (schoolRun .copying (.done schoolCopied) .waiting).copy i = .done result := by
    intro i hi
    obtain rfl := Nat.lt_one_iff.mp hi
    exact ⟨schoolCopied, by simp only [schoolRun, Function.update_self]⟩
  apply schoolSystem_copied.tail (ArchiveSystem.single_works (.verifies rfl hall)) |>.trans
  refine .head (schoolRun_verifies (.headSource rfl hsource)) ?_
  refine .head (schoolRun_verifies (.headArchive harchive rfl)) ?_
  refine .head (schoolRun_verifies (.readSource hsource rfl rfl)) ?_
  refine .head (schoolRun_verifies (.readArchive harchive rfl rfl)) ?_
  exact .single (schoolRun_verifies (.headAgain hsource rfl))

theorem archive_holds_deleted_school :
    ∃ obj, schoolArchived (archiveLocation "wasabi".toList schoolItem) = some obj ∧
      (∀ o, schoolArchived schoolLocation = some o → o.bytes = obj.bytes) ∧
      ∀ s', Relation.ReflTransGen (ArchiveStep "wasabi".toList id fun _ _ ↦ [1])
        (.single schoolArchived
          (schoolRun .verifying (.done schoolCopied) (.approved schoolObject.head))) s' →
        s'.objects (archiveLocation "wasabi".toList schoolItem) = some obj := by
  have hrun : (ArchiveSystem.single schoolArchived (schoolRun .verifying (.done schoolCopied)
      (.approved schoolObject.head))).runs 0 = some (schoolRun .verifying (.done schoolCopied)
      (.approved schoolObject.head)) := by
    simp only [ArchiveSystem.single, Function.update_self]
  have happroved : (schoolRun .verifying (.done schoolCopied)
      (.approved schoolObject.head)).verify 0 = .approved schoolObject.head := by
    simp only [schoolRun, Function.update_self]
  exact archive_holds_deleted (r := 0) (i := 0) Function.injective_id schoolSystem_start
    schoolSystem_approved hrun rfl happroved

end StorageReconciler
