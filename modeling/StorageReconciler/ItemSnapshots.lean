import Mathlib.Tactic.NormNum
import StorageReconciler.ArchiveReports

/-!
# Snapshots of the items of an archive job

The log of a job keeps the latest snapshot of each key.  A phase of the verification is
logged under the bucket and the key of its item, the bytes of an upload under the key
alone: items of one key in several buckets overwrite each other's bytes, and no other
items do.
-/

namespace StorageReconciler

open Strings Workers CoalescedLog

/-! ## Whose events are whose -/

def IsBytesOf (item : Str × Str) (x : Emission) : Prop :=
  x.owner = some item ∧ x.event.event = "archive_bytes".toList

/-- A phase of an item other than its end. -/
def IsPhaseOf (item : Str × Str) (x : Emission) : Prop :=
  x.owner = some item ∧ x.event.event = "archive_progress".toList ∧ ¬ x.event.IsItemDone

def JobEvent.IsSnapshot {β : Type*} (e : JobEvent β) : Prop :=
  e.event = "archive_bytes".toList ∨ e.event = "archive_progress".toList

/-- What a snapshot says of the item that emitted it. -/
structure NamesItem (item : Str × Str) (e : ArchiveEvent) : Prop where
  bytes : e.event = "archive_bytes".toList → e.data.key = some item.2
  phase : e.event = "archive_progress".toList →
    e.data.bucket = some item.1 ∧ e.data.key = some item.2

/-- Snapshots come from the workers of items, and name these. -/
def Emission.IsOwned (items : List (Str × Str)) (x : Emission) : Prop :=
  match x.owner with
  | some item => item ∈ items ∧ NamesItem item x.event
  | none => ¬ x.event.IsSnapshot

theorem Emission.IsOwned.of_bytes {items : List (Str × Str)} {x : Emission} (h : x.IsOwned items)
    (hbytes : x.event.event = "archive_bytes".toList) :
    ∃ item ∈ items, x.owner = some item ∧ x.event.data.key = some item.2 := by
  unfold IsOwned at h
  cases howner : x.owner with
  | none =>
      rw [howner] at h
      exact absurd (.inl hbytes) h
  | some item =>
      rw [howner] at h
      exact ⟨item, h.1, rfl, h.2.bytes hbytes⟩

theorem Emission.IsOwned.of_phase {items : List (Str × Str)} {x : Emission} (h : x.IsOwned items)
    (hphase : x.event.event = "archive_progress".toList) :
    ∃ item ∈ items, x.owner = some item ∧ x.event.data.bucket = some item.1 ∧
      x.event.data.key = some item.2 := by
  unfold IsOwned at h
  cases howner : x.owner with
  | none =>
      rw [howner] at h
      exact absurd (.inr hphase) h
  | some item =>
      rw [howner] at h
      exact ⟨item, h.1, rfl, h.2.phase hphase⟩

theorem archive_bytes_ne_archive_progress :
    "archive_bytes".toList ≠ "archive_progress".toList := by decide

theorem namesItem_onItemProgress (item : Str × Str) (transferred : ℤ) (totalBytes : ℕ) :
    NamesItem item (onItemProgress item.2 transferred totalBytes) :=
  ⟨fun _ ↦ rfl, fun h ↦ absurd h archive_bytes_ne_archive_progress⟩

theorem JobEvent.not_isSnapshot {β : Type*} {e : JobEvent β} (name : Str) (h : e.event = name)
    (hbytes : name ≠ "archive_bytes".toList) (hphase : name ≠ "archive_progress".toList) :
    ¬ e.IsSnapshot := by
  rintro (hevent | hevent)
  · exact hbytes (h.symm.trans hevent)
  · exact hphase (h.symm.trans hevent)

theorem NamesItem.of_not_isSnapshot {item : Str × Str} {e : ArchiveEvent} (h : ¬ e.IsSnapshot) :
    NamesItem item e :=
  ⟨fun hbytes ↦ absurd (.inl hbytes) h, fun hphase ↦ absurd (.inr hphase) h⟩

theorem namesItem_progress (phase : Str) (index total : ℕ) (item : Str × Str)
    (result : ArchiveResult) (transferred totalBytes : ℕ) (completed : Option ℕ) :
    NamesItem item (progress phase index total item result transferred totalBytes completed) :=
  ⟨fun h ↦ absurd h archive_bytes_ne_archive_progress.symm, fun _ ↦ ⟨rfl, rfl⟩⟩

section Job

variable {σ δ : Type*}

/-- The log holds the latest bytes and the latest phase of each item that emitted any. -/
structure ReportingJob.HoldsSnapshots (p : ReportingJob σ δ) : Prop where
  bytes : ∀ item s x, IsLatest (IsBytesOf item) p.emissions s x →
    (s + 1, x.event) ∈ p.state.log.events.values
  phase : ∀ item s x, IsLatest (IsPhaseOf item) p.emissions s x →
    (s + 1, x.event) ∈ p.state.log.events.values

/-- The log is that of the emissions, and each of these names its item. -/
structure ReportingJob.IsAttributed (p : ReportingJob σ δ) : Prop where
  logged : p.state.IsLogged
  emitted : p.state.emitted = p.emissions.map Emission.event
  owned : ∀ x ∈ p.emissions, x.IsOwned p.run.items

variable {archive : σ} {p q : ReportingJob σ δ}

/-! ## What the log holds -/

theorem ReportingJob.IsAttributed.represents (h : p.IsAttributed) :
    Represents JobEvent.eventKey p.state.log (p.emissions.map Emission.event) :=
  h.emitted ▸ h.logged

/-- The latest phase of each item is always there. -/
theorem ReportingJob.IsAttributed.mem_phase (h : p.IsAttributed) {item : Str × Str} {s : ℕ}
    {x : Emission} (hx : IsLatest (IsPhaseOf item) p.emissions s x) :
    (s + 1, x.event) ∈ p.state.log.events.values := by
  apply h.represents.mem_of_isLatest hx
  intro s' y _ hy k hkx hky
  obtain ⟨howner, hphase⟩ := hx.kind
  have hkey : x.event.eventKey = some (.progress (some item.1) (some item.2)) := by
    obtain ⟨a, _, ha, hbucket, hkey⟩ :=
      (h.owned x (List.mem_of_getElem? hx.at_place)).of_phase hphase.1
    obtain rfl := Option.some.inj (howner.symm.trans ha)
    exact JobEvent.eventKey_eq_progress_iff.mpr ⟨hphase, hbucket, hkey⟩
  rw [hkey] at hkx
  obtain rfl := Option.some.inj hkx
  obtain ⟨hyphase, hybucket, hykey⟩ := JobEvent.eventKey_eq_progress_iff.mp hky
  obtain ⟨b, _, hb, hbbucket, hbkey⟩ := (h.owned y (List.mem_of_getElem? hy)).of_phase hyphase.1
  have hitem : b = item := Prod.ext (Option.some.inj (hbbucket.symm.trans hybucket))
    (Option.some.inj (hbkey.symm.trans hykey))
  exact ⟨hitem ▸ hb, hyphase⟩

theorem ReportingJob.IsAttributed.eventKey_of_isBytesOf (h : p.IsAttributed) {item : Str × Str}
    {x : Emission} (hmem : x ∈ p.emissions) (hx : IsBytesOf item x) :
    x.event.eventKey = some (.bytes (some item.2)) := by
  obtain ⟨a, _, ha, hkey⟩ := (h.owned x hmem).of_bytes hx.2
  obtain rfl := Option.some.inj (hx.1.symm.trans ha)
  exact JobEvent.eventKey_eq_bytes_iff.mpr ⟨hx.2, hkey⟩

/-- The latest bytes of an item are there unless bytes of its key came after them. -/
theorem ReportingJob.IsAttributed.mem_bytes_iff (h : p.IsAttributed) {item : Str × Str} {s : ℕ}
    {x : Emission} (hx : IsLatest (IsBytesOf item) p.emissions s x) :
    (s + 1, x.event) ∈ p.state.log.events.values ↔
      ∀ other s' y, s < s' → p.emissions[s']? = some y → IsBytesOf other y →
        other.2 ≠ item.2 := by
  have hkey := h.eventKey_of_isBytesOf (List.mem_of_getElem? hx.at_place) hx.kind
  constructor
  · intro hmem other s' y hs hy hbytes hsame
    have hget : (p.emissions.map Emission.event)[s']? = some y.event := by
      rw [List.getElem?_map, hy, Option.map_some]
    have hykey := h.eventKey_of_isBytesOf (List.mem_of_getElem? hy) hbytes
    rw [hsame] at hykey
    exact h.represents.notMem_of_later hs hget hkey hykey hmem
  · intro hlater
    apply h.represents.mem_of_isLatest hx
    intro s' y hs hy k hkx hky
    rw [hkey] at hkx
    obtain rfl := Option.some.inj hkx
    obtain ⟨hbytes, hykey⟩ := JobEvent.eventKey_eq_bytes_iff.mp hky
    obtain ⟨b, _, hb, hbkey⟩ := (h.owned y (List.mem_of_getElem? hy)).of_bytes hbytes
    have hsame : b.2 = item.2 := Option.some.inj (hbkey.symm.trans hykey)
    exact absurd hsame (hlater b s' y hs hy ⟨hb, hbytes⟩)

/-! ## Items with keys of their own -/

/-- No key is in two buckets. -/
def HaveOwnKeys (items : List (Str × Str)) : Prop :=
  ∀ a ∈ items, ∀ b ∈ items, a.2 = b.2 → a = b

theorem ReportingJob.IsAttributed.mem_items (h : p.IsAttributed) {item : Str × Str}
    {x : Emission} (hmem : x ∈ p.emissions) (howner : x.owner = some item) :
    item ∈ p.run.items := by
  have howned := h.owned x hmem
  unfold Emission.IsOwned at howned
  rw [howner] at howned
  exact howned.1

theorem ReportingJob.IsAttributed.holdsSnapshots (h : p.IsAttributed)
    (hkeys : HaveOwnKeys p.run.items) : p.HoldsSnapshots := by
  refine ⟨fun item s x hx ↦ (h.mem_bytes_iff hx).mpr ?_, fun item s x hx ↦ h.mem_phase hx⟩
  intro other s' y hs hy hbytes hsame
  have hother := h.mem_items (List.mem_of_getElem? hy) hbytes.1
  have hitem := h.mem_items (List.mem_of_getElem? hx.at_place) hx.kind.1
  obtain rfl := hkeys other hother item hitem hsame
  exact hx.later s' y hs hy hbytes

/-! ## A job that is turned down -/

/-- No item is being worked on, and none has emitted anything. -/
structure ReportingJob.IsSilent (p : ReportingJob σ δ) : Prop where
  phase : p.run.phase = .admitted ∨ p.run.phase = .finished
  owner : ∀ x ∈ p.emissions, x.owner = none

theorem ReportingJob.IsSilent.of_eq (h : p.IsSilent) (hphase : q.run.phase = p.run.phase)
    (hemissions : q.emissions = p.emissions) : q.IsSilent :=
  ⟨hphase ▸ h.phase, hemissions ▸ h.owner⟩

theorem ReportingJob.IsSilent.emit (h : p.IsSilent) (e : ArchiveEvent) :
    (p.emit none e).IsSilent := by
  refine ⟨h.phase, fun x hx ↦ ?_⟩
  rcases List.mem_append.mp hx with hold | hnew
  · exact h.owner x hold
  · rw [List.mem_singleton.mp hnew]

theorem ReportingJob.IsSilent.holdsSnapshots (h : p.IsSilent) : p.HoldsSnapshots := by
  have hnone : ∀ (item : Str × Str) (s : ℕ) (x : Emission), p.emissions[s]? = some x →
      x.owner ≠ some item := by
    intro item s x hx howner
    rw [h.owner x (List.mem_of_getElem? hx)] at howner
    exact nomatch howner
  exact ⟨fun item s x hx ↦ absurd hx.kind.1 (hnone item s x hx.at_place),
    fun item s x hx ↦ absurd hx.kind.1 (hnone item s x hx.at_place)⟩

/-! ## Two uploads of one key -/

/-- The upload of an item may begin. -/
structure CanUpload (archive : σ) (p : ReportingJob σ δ) (i : ℕ) (item : Str × Str) : Prop where
  working : p.state.phase = .working
  phase : p.run.phase = .copying
  at_item : p.run.items[i]? = some item
  waiting : p.run.copy i = .waiting
  available : p.run.bucketErrors archiveBucketName = none
  absent : p.objects (archiveLocation archive item) = none
  there : ∃ obj, p.objects (p.run.sourceOf item) = some obj

theorem makeCallback_callback {totalBytes : ℕ} {now : ℚ} {bytesAmount : ℤ}
    (h : itemProgressMinInterval ≤ now) :
    makeCallback.callback totalBytes now bytesAmount =
      (⟨bytesAmount, now⟩, some (bytesAmount, totalBytes)) := by
  have hdue : itemProgressMinInterval ≤ now - makeCallback.lastEmit := by
    rwa [makeCallback, sub_zero]
  rw [CallbackState.callback, if_pos (.inl hdue), makeCallback, zero_add]

theorem CanUpload.setCopy {i j : ℕ} {item : Str × Str} (h : CanUpload archive p j item)
    (hne : j ≠ i) (status : CopyStatus) :
    CanUpload archive (p.setCopy i ⟨p.objects, p.run.aclSupported⟩ status) j item := by
  have hcopy : (p.setCopy i ⟨p.objects, p.run.aclSupported⟩ status).run.copy j = p.run.copy j := by
    change Function.update p.run.copy i status j = p.run.copy j
    rw [Function.update_of_ne hne]
  exact ⟨h.working, h.phase, h.at_item, hcopy.trans h.waiting, h.available, h.absent, h.there⟩

/-- All sources hold the same two bytes, and nothing is archived yet. -/
def unarchived : Objects σ := fun l ↦
  if l.bucket = archiveBucketName then none else some ⟨[1, 2], none, [], 0, none⟩

theorem unarchived_archive (archive : σ) (item : Str × Str) :
    unarchived (archiveLocation archive item) = none := if_pos rfl

/-! ## The runs of a job -/

variable [DecidableEq σ] {sha256 : List UInt8 → δ} {named : Location σ → ObjectHead → List UInt8}

theorem ItemStep.namesItem {i : ℕ} {item : Str × Str} {e? : Option ArchiveEvent}
    (h : ItemStep archive sha256 named i item p e? q) : ∀ e, e? = some e → NamesItem item e := by
  intro e he
  cases h with
  | uploads now bytesAmount phase uploading =>
      obtain ⟨sent, _, rfl⟩ := Option.map_eq_some_iff.mp he
      exact namesItem_onItemProgress item _ _
  | tellsCopy =>
      obtain rfl := Option.some.inj he
      exact .of_not_isSnapshot
        (JobEvent.not_isSnapshot "copy_progress".toList rfl (by decide) (by decide))
  | tellsDeletion =>
      obtain rfl := Option.some.inj he
      exact .of_not_isSnapshot
        (JobEvent.not_isSnapshot "delete_progress".toList rfl (by decide) (by decide))
  | checks => exact Option.some.inj he ▸ namesItem_progress ..
  | beginsDigest => exact Option.some.inj he ▸ namesItem_progress ..
  | tellsChunk => exact Option.some.inj he ▸ namesItem_progress ..
  | tellsDeleting => exact Option.some.inj he ▸ namesItem_progress ..
  | tellsItem => exact Option.some.inj he ▸ namesItem_progress ..
  | _ => exact nomatch he

/-- A step appends an emission that is owned to those before, or nothing. -/
theorem ReportStep.emissions_cases (h : ReportStep archive sha256 named p q) :
    q.run.items = p.run.items ∧
      (q.emissions = p.emissions ∧ q.state.emitted = p.state.emitted ∨
        ∃ x : Emission, q.emissions = p.emissions ++ [x] ∧
          q.state.emitted = p.state.emitted ++ [x.event] ∧ x.IsOwned p.run.items) := by
  cases h with
  | prepares =>
      exact ⟨rfl, .inr ⟨⟨none, _⟩, rfl, rfl,
        JobEvent.not_isSnapshot "archive_phase".toList rfl (by decide) (by decide)⟩⟩
  | @item q i item e? working hitem step =>
      obtain ⟨hstate, hemissions, hitems⟩ := step.frame
      cases e? with
      | none =>
          exact ⟨hitems, .inl ⟨hemissions, congrArg JobState.emitted hstate⟩⟩
      | some e =>
          refine ⟨hitems, .inr ⟨⟨some item, e⟩, ?_, ?_, ?_⟩⟩
          · exact congrArg (· ++ [⟨some item, e⟩]) hemissions
          · exact congrArg (JobState.emitted · ++ [e]) hstate
          · exact ⟨List.mem_of_getElem? hitem, step.namesItem e rfl⟩
  | reports =>
      exact ⟨rfl, .inr ⟨⟨none, _⟩, rfl, rfl,
        JobEvent.not_isSnapshot "archive_phase".toList rfl (by decide) (by decide)⟩⟩
  | done =>
      exact ⟨rfl, .inr ⟨⟨none, _⟩, rfl, rfl,
        JobEvent.not_isSnapshot "done".toList rfl (by decide) (by decide)⟩⟩
  | archiveFailed =>
      exact ⟨rfl, .inr ⟨⟨none, _⟩, rfl, rfl,
        JobEvent.not_isSnapshot "archive_failed".toList rfl (by decide) (by decide)⟩⟩
  | error =>
      exact ⟨rfl, .inr ⟨⟨none, _⟩, rfl, rfl,
        JobEvent.not_isSnapshot "error".toList rfl (by decide) (by decide)⟩⟩
  | _ => exact ⟨rfl, .inl ⟨rfl, rfl⟩⟩

theorem IsLogged.workSteps {s s' : JobState ReportFields} (h : s.IsLogged)
    (hrun : Relation.ReflTransGen WorkStep s s') : s'.IsLogged := by
  induction hrun with
  | refl => exact h
  | tail _ hstep ih => exact hstep.isLogged ih

theorem ReportingJob.IsAttributed.step (h : p.IsAttributed)
    (hstep : ReportStep archive sha256 named p q) : q.IsAttributed := by
  obtain ⟨hitems, hsame | ⟨x, hemissions, hemitted, howned⟩⟩ := hstep.emissions_cases
  · refine ⟨IsLogged.workSteps h.logged hstep.workSteps, ?_, ?_⟩
    · rw [hsame.2, hsame.1]
      exact h.emitted
    · rw [hsame.1, hitems]
      exact h.owned
  · refine ⟨IsLogged.workSteps h.logged hstep.workSteps, ?_, ?_⟩
    · rw [hemitted, hemissions, List.map_append, h.emitted]
      rfl
    · intro y hy
      rw [hemissions] at hy
      rw [hitems]
      rcases List.mem_append.mp hy with hold | hnew
      · exact h.owned y hold
      · exact List.mem_singleton.mp hnew ▸ howned

theorem ReportingJob.IsAttributed.reachable {request : JobRequest} {uuid : Str} {source : σ}
    {bucketErrors : Str → Option Str} {objects : Objects σ}
    (hrun : Relation.ReflTransGen (ReportStep archive sha256 named)
      (.start request uuid source bucketErrors objects) p) :
    p.IsAttributed ∧ p.run.items = request.items := by
  induction hrun with
  | refl => exact ⟨⟨represents_empty, rfl, fun x hx ↦ nomatch hx⟩, rfl⟩
  | tail _ hstep ih => exact ⟨ih.1.step hstep, hstep.emissions_cases.1.trans ih.2⟩

theorem ItemStep.phase {i : ℕ} {item : Str × Str} {e? : Option ArchiveEvent}
    (h : ItemStep archive sha256 named i item p e? q) :
    p.run.phase = .copying ∨ p.run.phase = .verifying := by
  cases h with
  | copies phase => exact .inl phase
  | uploads _ _ phase => exact .inl phase
  | countsCopy phase => exact .inl phase
  | tellsCopy phase => exact .inl phase
  | checks phase => exact .inr phase
  | beginsDigest phase => exact .inr phase
  | readsChunk _ _ phase => exact .inr phase
  | tellsChunk _ _ phase => exact .inr phase
  | verifies phase => exact .inr phase
  | tellsDeleting phase => exact .inr phase
  | deletes phase => exact .inr phase
  | countsItem phase => exact .inr phase
  | tellsItem phase => exact .inr phase
  | tellsDeletion phase => exact .inr phase
  | ends phase => exact .inr phase

/-- A job with an item in the archive bucket never begins to copy. -/
theorem ReportingJob.IsSilent.step (h : p.IsSilent) {item : Str × Str}
    (hitem : item ∈ p.run.items) (harchive : item.1 = archiveBucketName)
    (hstep : ReportStep archive sha256 named p q) : q.IsSilent := by
  have hidle : p.run.phase ≠ .copying ∧ p.run.phase ≠ .verifying := by
    rcases h.phase with hphase | hphase <;> simp [hphase]
  cases hstep with
  | others objects => exact h.of_eq rfl rfl
  | prepares => exact (h.emit preparePhase).of_eq rfl rfl
  | begins working stage phase accepted => exact absurd harchive (accepted item hitem)
  | item working at_item step =>
      rcases step.phase with hphase | hphase
      · exact absurd hphase hidle.1
      · exact absurd hphase hidle.2
  | verifies working phase => exact absurd phase hidle.1
  | finishes => exact ⟨.inr rfl, h.owner⟩
  | reports => exact (h.emit reportPhase).of_eq rfl rfl
  | @done results => exact (h.emit (doneEvent results)).of_eq rfl rfl
  | returns => exact h.of_eq rfl rfl
  | raises => exact ⟨.inr rfl, h.owner⟩
  | @archiveFailed message =>
      exact (h.emit ⟨"archive_failed".toList, .message message⟩).of_eq rfl rfl
  | @error message => exact (h.emit ⟨"error".toList, .message message⟩).of_eq rfl rfl
  | finish => exact h.of_eq rfl rfl

theorem ReportingJob.IsSilent.reachable {request : JobRequest} {uuid : Str} {source : σ}
    {bucketErrors : Str → Option Str} {objects : Objects σ} {item : Str × Str}
    (hitem : item ∈ request.items) (harchive : item.1 = archiveBucketName)
    (hrun : Relation.ReflTransGen (ReportStep archive sha256 named)
      (.start request uuid source bucketErrors objects) p) : p.IsSilent := by
  induction hrun with
  | refl => exact ⟨.inl rfl, fun x hx ↦ nomatch hx⟩
  | tail hbefore hstep ih =>
      have hitems := (ReportingJob.IsAttributed.reachable hbefore).2
      exact ih.step (hitems ▸ hitem) harchive hstep

theorem CanUpload.exists_uploading (sha256 : List UInt8 → δ)
    (named : Location σ → ObjectHead → List UInt8) {i : ℕ} {item : Str × Str}
    (h : CanUpload archive p i item) :
    ∃ q x, Relation.ReflTransGen (ReportStep archive sha256 named) p q ∧
      q.emissions = p.emissions ++ [x] ∧ IsBytesOf item x ∧
      ∀ j other, j ≠ i → CanUpload archive p j other → CanUpload archive q j other := by
  obtain ⟨obj, hobj⟩ := h.there
  let state : CopyState σ := ⟨p.objects, p.run.aclSupported⟩
  let p₁ := p.setCopy i state .transfer
  have hhead : ItemStep archive sha256 named i item p none p₁ := by
    refine .copies h.phase ?_
    rw [h.waiting]
    exact .notFound h.available rfl h.absent
  let p₂ := p₁.setCopy i state (.fetched obj false)
  have hget : ItemStep archive sha256 named i item p₁ none p₂ := by
    refine .copies h.phase ?_
    have hcopy : p₁.run.copy i = .transfer := Function.update_self ..
    rw [hcopy]
    exact .get hobj
  let p₃ := p₂.setCallback i ⟨1, 1⟩
  have hupload : ItemStep archive sha256 named i item p₂
      (some (onItemProgress item.2 1 obj.bytes.length)) p₃ := by
    have hfetched : p₂.run.copy i = .fetched obj false := Function.update_self ..
    have hcallback : p₂.callback i = makeCallback := Function.update_self ..
    have hstep : ItemStep archive sha256 named i item p₂
        (((p₂.callback i).callback obj.bytes.length 1 1).2.map fun sent ↦
          onItemProgress item.2 sent.1 sent.2)
        (p₂.setCallback i ((p₂.callback i).callback obj.bytes.length 1 1).1) :=
      .uploads 1 1 h.phase hfetched
    rwa [hcallback, makeCallback_callback (by norm_num [itemProgressMinInterval])] at hstep
  have hstep₁ : ReportStep archive sha256 named p p₁ := .item h.working h.at_item hhead
  have hstep₂ : ReportStep archive sha256 named p₁ p₂ :=
    .item (p := p₁) h.working h.at_item hget
  have hstep₃ : ReportStep archive sha256 named p₂
      (p₃.emit (some item) (onItemProgress item.2 1 obj.bytes.length)) :=
    .item (p := p₂) h.working h.at_item hupload
  refine ⟨_, ⟨some item, _⟩, .tail (.tail (.single hstep₁) hstep₂) hstep₃, rfl, ⟨rfl, rfl⟩, ?_⟩
  intro j other hne hother
  have hlast := (hother.setCopy hne .transfer).setCopy hne (.fetched obj false)
  exact ⟨hlast.working, hlast.phase, hlast.at_item, hlast.waiting, hlast.available,
    hlast.absent, hlast.there⟩

theorem exists_canUpload (archive : σ) (sha256 : List UInt8 → δ)
    (named : Location σ → ObjectHead → List UInt8) (request : JobRequest) (uuid : Str)
    (source : σ) (hplain : ∀ item ∈ request.items, item.1 ≠ archiveBucketName) :
    ∃ p : ReportingJob σ δ, Relation.ReflTransGen (ReportStep archive sha256 named)
      (.start request uuid source (fun _ ↦ none) unarchived) p ∧
      ∀ i item, request.items[i]? = some item → CanUpload archive p i item := by
  let p₀ : ReportingJob σ δ := .start request uuid source (fun _ ↦ none) unarchived
  let p₁ := (p₀.emit none preparePhase).setStage .archiving
  have hprepare : ReportStep archive sha256 named p₀ p₁ := .prepares rfl rfl
  have hbegin : ReportStep archive sha256 named p₁ (p₁.setPhase .copying) :=
    .begins rfl rfl rfl hplain
  refine ⟨_, .tail (.single hprepare) hbegin, fun i item hitem ↦ ?_⟩
  have hsource : unarchived (p₁.run.sourceOf item) = some ⟨[1, 2], none, [], 0, none⟩ :=
    if_neg (hplain item (List.mem_of_getElem? hitem))
  exact ⟨rfl, rfl, hitem, rfl, rfl, unarchived_archive archive item, _, hsource⟩

/-- The second of two uploads of one key takes the place of the first. -/
theorem exists_overwritten (archive : σ) (sha256 : List UInt8 → δ)
    (named : Location σ → ObjectHead → List UInt8) (request : JobRequest) (uuid : Str)
    (source : σ) (hplain : ∀ item ∈ request.items, item.1 ≠ archiveBucketName)
    {a b : Str × Str} (ha : a ∈ request.items) (hb : b ∈ request.items) (hkey : a.2 = b.2)
    (hne : a ≠ b) :
    ∃ (p : ReportingJob σ δ) (s : ℕ) (x : Emission),
      Relation.ReflTransGen (ReportStep archive sha256 named)
        (.start request uuid source (fun _ ↦ none) unarchived) p ∧
      IsLatest (IsBytesOf a) p.emissions s x ∧
        (s + 1, x.event) ∉ p.state.log.events.values := by
  obtain ⟨i, hi⟩ := List.mem_iff_getElem?.mp ha
  obtain ⟨j, hj⟩ := List.mem_iff_getElem?.mp hb
  have hij : j ≠ i := by
    rintro rfl
    exact hne (Option.some.inj (hi.symm.trans hj))
  obtain ⟨p, hp, hcan⟩ := exists_canUpload archive sha256 named request uuid source hplain
  obtain ⟨q, x, hq, hqemissions, hx, hothers⟩ := (hcan i a hi).exists_uploading sha256 named
  obtain ⟨r, y, hr, hremissions, hy, _⟩ :=
    (hothers j b hij (hcan j b hj)).exists_uploading sha256 named
  have hrun := (hp.trans hq).trans hr
  have hlatest : IsLatest (IsBytesOf a) r.emissions p.emissions.length x := by
    rw [hremissions, hqemissions]
    refine (isLatest_last hx).append fun hya ↦ hne ?_
    exact Option.some.inj (hya.1.symm.trans hy.1)
  have hlater : r.emissions[p.emissions.length + 1]? = some y := by
    rw [hremissions, hqemissions]
    simp
  have hattributed := (ReportingJob.IsAttributed.reachable hrun).1
  refine ⟨r, _, x, hrun, hlatest, fun hmem ↦ ?_⟩
  exact (hattributed.mem_bytes_iff hlatest).mp hmem b _ y (Nat.lt_succ_self _) hlater hy hkey.symm

/-- In every run of a job its log holds the latest snapshots of all items, if and only if
no key is in two buckets, unless the job is turned down for an item in the archive. -/
theorem itemSnapshots_held_iff (archive : σ) (sha256 : List UInt8 → δ)
    (named : Location σ → ObjectHead → List UInt8) (request : JobRequest) (uuid : Str)
    (source : σ) :
    (∀ bucketErrors objects (p : ReportingJob σ δ),
      Relation.ReflTransGen (ReportStep archive sha256 named)
        (.start request uuid source bucketErrors objects) p → p.HoldsSnapshots) ↔
      HaveOwnKeys request.items ∨ ∃ item ∈ request.items, item.1 = archiveBucketName := by
  constructor
  · intro hholds
    by_contra hnot
    obtain ⟨hshared, hplain⟩ := not_or.mp hnot
    unfold HaveOwnKeys at hshared
    push Not at hshared hplain
    obtain ⟨a, ha, b, hb, hkey, hne⟩ := hshared
    obtain ⟨p, s, x, hrun, hlatest, hlost⟩ :=
      exists_overwritten archive sha256 named request uuid source hplain ha hb hkey hne
    exact hlost ((hholds _ _ p hrun).bytes a s x hlatest)
  · rintro (hkeys | ⟨item, hitem, harchive⟩) bucketErrors objects p hrun
    · obtain ⟨hattributed, hitems⟩ := ReportingJob.IsAttributed.reachable hrun
      exact hattributed.holdsSnapshots (hitems ▸ hkeys)
    · exact (ReportingJob.IsSilent.reachable hitem harchive hrun).holdsSnapshots

end Job

/-- A photo of one name in two buckets. -/
def twoBucketsRequest : JobRequest :=
  ⟨"do".toList, [("media".toList, "a.png".toList), ("photos".toList, "a.png".toList)], none⟩

/-- The bytes of the photo in the first bucket are gone once the second one uploads. -/
theorem photo_bytes_overwritten :
    twoBucketsRequest.items.Nodup ∧
      ∃ (objects : Objects Str) (p : ReportingJob Str (List UInt8)) (s : ℕ) (x : Emission),
        Relation.ReflTransGen (ReportStep "aws".toList id fun _ _ ↦ [])
          (.start twoBucketsRequest "1".toList "do".toList (fun _ ↦ none) objects) p ∧
        IsLatest (IsBytesOf ("media".toList, "a.png".toList)) p.emissions s x ∧
          (s + 1, x.event) ∉ p.state.log.events.values := by
  refine ⟨by decide, unarchived, ?_⟩
  exact exists_overwritten "aws".toList id (fun _ _ ↦ []) twoBucketsRequest "1".toList
    "do".toList (by decide) List.mem_cons_self (List.mem_cons_of_mem _ List.mem_cons_self) rfl
    (by decide)

end StorageReconciler
