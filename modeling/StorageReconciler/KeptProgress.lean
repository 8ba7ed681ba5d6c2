import StorageReconciler.Resumption

/-!
# What a failed run keeps

The checkpoints of mappings and buckets are removed before the rich-text columns
are read, and those of the rich-text columns whatever became of the others.  A
failed run keeps all its progress if items failed on both sides and no two of
them share a file.
-/

namespace StorageReconciler

open Strings ResumablePool

variable {ι κ δ : Type*}

/-- Every item that was delivered has its file, with what was delivered in it. -/
def IsLoadable (id : ι) (names : List Str) (files : ι × Str → Option δ)
    (results : List (Except Str δ)) : Prop :=
  ∀ (i : ℕ) (name : Str) (d : δ), names[i]? = some name → results[i]? = some (.ok d) →
    files (id, safeName name) = some d

/-- The same was delivered for all items whose files have one name. -/
def AgreesByFile (names : List Str) (results : List (Except Str δ)) : Prop :=
  ∀ (i j : ℕ) (name name' : Str) (d d' : δ), names[i]? = some name → names[j]? = some name' →
    results[i]? = some (.ok d) → results[j]? = some (.ok d') → safeName name' = safeName name →
      d' = d

theorem tasksFor_getElem? {id : ι} {names : List Str} {outcomes : List (Except Str δ)} {i : ℕ}
    {t : Task (ι × Str) δ Str} :
    (tasksFor id names outcomes)[i]? = some t ↔
      ∃ name, names[i]? = some name ∧ outcomes[i]? = some t.2 ∧ t.1 = (id, safeName name) := by
  unfold tasksFor
  rw [List.getElem?_zip_eq_some, List.getElem?_map, Option.map_eq_some_iff]
  constructor
  · rintro ⟨⟨name, hname, htask⟩, houtcome⟩
    exact ⟨name, hname, houtcome, htask.symm⟩
  · rintro ⟨name, hname, houtcome, htask⟩
    exact ⟨⟨name, hname, htask.symm⟩, houtcome⟩

section Phase

variable [DecidableEq ι] {id : ι} {names : List Str} {outcomes results : List (Except Str δ)}
  {store store' files : ι × Str → Option δ}

theorem exists_task (h : Completes (tasksFor id names outcomes) store store' results) {i : ℕ}
    {r : Except Str δ} (hresult : results[i]? = some r) :
    ∃ name o, names[i]? = some name ∧
      (tasksFor id names outcomes)[i]? = some ((id, safeName name), o) := by
  obtain ⟨hlt, _⟩ := List.getElem?_eq_some_iff.mp hresult
  rw [h.1] at hlt
  obtain ⟨name, hname, _, htask⟩ := tasksFor_getElem?.mp (List.getElem?_eq_getElem hlt)
  refine ⟨name, (tasksFor id names outcomes)[i].2, hname, ?_⟩
  rw [List.getElem?_eq_getElem hlt, ← htask]

theorem isLoadable_of_completes (hagrees : AgreesByFile names results)
    (h : Completes (tasksFor id names outcomes) store store' results) :
    IsLoadable id names store' results := by
  intro i name d hname hresult
  obtain ⟨name', o, hname', htask⟩ := exists_task h hresult
  obtain rfl := Option.some.inj (hname.symm.trans hname')
  obtain ⟨j, o', d', htask', hresult', hstored⟩ := h.stored htask hresult
  obtain ⟨other, hother, _, hfile⟩ := tasksFor_getElem?.mp htask'
  have hsame := (Prod.mk.inj hfile).2.symm
  rw [hstored, hagrees i j name other d d' hname hother hresult hresult' hsame]

omit [DecidableEq ι] in
theorem IsLoadable.agreesByFile (h : IsLoadable id names files results) :
    AgreesByFile names results := by
  intro i j name name' d d' hname hname' hresult hresult' hsame
  have hfile := h j name' d' hname' hresult'
  rw [hsame, h i name d hname hresult] at hfile
  exact (Option.some.inj hfile).symm

theorem not_isLoadable_of_empty
    (h : Completes (tasksFor id names outcomes) store store' results) {d : δ}
    (hok : .ok d ∈ results) (hempty : ∀ name, files (id, name) = none) :
    ¬ IsLoadable id names files results := by
  intro hloadable
  obtain ⟨i, hresult⟩ := List.mem_iff_getElem?.mp hok
  obtain ⟨name, _, hname, _⟩ := exists_task h hresult
  have hfile := hloadable i name d hname hresult
  rw [hempty] at hfile
  cases hfile

end Phase

theorem exists_ok_of_hasError_eq_false {results : List (Except Str δ)}
    (h : hasError some results = false) : ∀ r ∈ results, ∃ d, r = .ok d := by
  intro r hr
  cases r with
  | ok d => exact ⟨d, rfl⟩
  | error e => exact absurd rfl (List.any_eq_false.mp h (.error e) hr)

theorem clearFiles_self [DecidableEq ι] {id : ι} {files : ι × Str → Option δ} (name : Str) :
    clearFiles id files (id, name) = none := if_pos rfl

theorem clearFiles_eq_none [DecidableEq ι] {id : ι} {files : ι × Str → Option δ} {f : ι × Str}
    (h : files f = none) : clearFiles id files f = none := by
  unfold clearFiles
  split_ifs
  · rfl
  · exact h

/-! ## The runs that keep their progress -/

namespace ItemOutcomes

variable (results : ItemOutcomes κ)

/-- A mapping or a bucket failed, and was reported. -/
def scanFails : Bool := hasError some results.mappings || hasError bucketError results.buckets

def contentFails : Bool := hasError some results.content

/-- There is an outcome for each item. -/
structure Fits (input : RunInput) (buckets : List Str) : Prop where
  mappings : results.mappings.length = input.request.mappings.length
  buckets : results.buckets.length = buckets.length
  content : results.content.length = input.content.length

end ItemOutcomes

section Run

variable [DecidableEq ι] (digest : CheckpointKey → ι)

/-- What the run delivered can be loaded by the next run of the request. -/
structure KeepsProgress (input : RunInput) (buckets : List Str) (results : ItemOutcomes κ)
    (after : Checkpoints ι κ) : Prop where
  mappings : IsLoadable (checkpointIdFor digest input.request)
    (input.request.mappings.map mappingKey) after.mapping results.mappings
  buckets : IsLoadable (checkpointIdFor digest input.request) buckets after.bucket results.buckets
  content : IsLoadable (checkpointIdFor digest input.contentRequest)
    (input.content.map mappingKey) after.content results.content

/-- A mapping or bucket failed, or none was delivered; and a rich-text column failed, or
none was asked for. -/
structure FailsOnBothSides (input : RunInput) (results : ItemOutcomes κ) : Prop where
  scan : results.scanFails = true ∨
    (∀ refs, .ok refs ∉ results.mappings) ∧ ∀ objs, .ok objs ∉ results.buckets
  content : input.content = [] ∨ results.contentFails = true

omit [DecidableEq ι] in
/-- No checkpoint file is shared by items that delivered different things. -/
structure FilesAgree (input : RunInput) (buckets : List Str) (results : ItemOutcomes κ) :
    Prop where
  mappings : AgreesByFile (input.request.mappings.map mappingKey) results.mappings
  buckets : AgreesByFile buckets results.buckets
  content : AgreesByFile (input.content.map mappingKey) results.content

variable {digest} {input : RunInput} {buckets : List Str} {outcomes results : ItemOutcomes κ}
  {before after : Checkpoints ι κ}

theorem afterContent_of_fails (extracted : Checkpoints ι κ)
    (hfails : input.content = [] ∨ results.contentFails = true) :
    afterContent digest input results extracted = extracted := by
  unfold afterContent
  rw [if_pos]
  rcases hfails with hnone | hfails
  · simp [hnone]
  · rw [ItemOutcomes.contentFails] at hfails
    simp [hfails]

theorem afterScan_of_scanFails (scanned : Checkpoints ι κ) (hfails : results.scanFails = true) :
    afterScan digest input results scanned = scanned := by
  unfold afterScan
  exact if_pos hfails

theorem afterScan_of_not_scanFails (scanned : Checkpoints ι κ)
    (hfails : results.scanFails = false) :
    afterScan digest input results scanned =
      scanned.clear (checkpointIdFor digest input.request) := by
  unfold afterScan
  rw [ItemOutcomes.scanFails] at hfails
  simp [hfails]

omit [DecidableEq ι] in
theorem isLoadable_of_forall_not_ok {id : ι} {names : List Str} {files : ι × Str → Option δ}
    {rs : List (Except Str δ)} (h : ∀ d, .ok d ∉ rs) : IsLoadable id names files rs :=
  fun _ _ d _ hresult ↦ absurd (List.mem_of_getElem? hresult) (h d)

/-- Once nothing failed in them, the mappings and buckets have no files left. -/
theorem scan_cleared (hrun : RunsTo digest input buckets outcomes before after results)
    (hfails : results.scanFails = false) :
    (∀ name, after.mapping (checkpointIdFor digest input.request, name) = none) ∧
      ∀ name, after.bucket (checkpointIdFor digest input.request, name) = none := by
  obtain ⟨scanned, extracted, _, _, _, _, hmapping, hbucket, rfl⟩ := hrun
  rw [afterScan_of_not_scanFails scanned hfails] at hmapping hbucket
  unfold afterContent
  split_ifs
  · rw [hmapping, hbucket]
    exact ⟨clearFiles_self, clearFiles_self⟩
  · simp only [Checkpoints.clear, hmapping, hbucket]
    exact ⟨fun name ↦ clearFiles_eq_none (clearFiles_self name),
      fun name ↦ clearFiles_eq_none (clearFiles_self name)⟩

theorem content_cleared (hrun : RunsTo digest input buckets outcomes before after results)
    (hasked : input.content ≠ []) (hfails : results.contentFails = false) :
    ∀ name, after.content (checkpointIdFor digest input.contentRequest, name) = none := by
  obtain ⟨scanned, extracted, _, _, _, _, _, _, rfl⟩ := hrun
  intro name
  unfold afterContent
  rw [ItemOutcomes.contentFails] at hfails
  rw [if_neg (by simp [hasked, hfails])]
  exact clearFiles_self name

theorem KeepsProgress.failsOnBothSides
    (hrun : RunsTo digest input buckets outcomes before after results)
    (hfits : outcomes.Fits input buckets)
    (hkeeps : KeepsProgress digest input buckets results after) :
    FailsOnBothSides input results := by
  obtain ⟨_, _, hmapping, hbucket, _, hcontent, _⟩ := id hrun
  refine ⟨?_, ?_⟩
  · cases hfails : results.scanFails with
    | true => exact .inl rfl
    | false =>
        obtain ⟨hnone, hnone'⟩ := scan_cleared hrun hfails
        exact .inr ⟨fun refs hok ↦ not_isLoadable_of_empty hmapping hok hnone hkeeps.mappings,
          fun objs hok ↦ not_isLoadable_of_empty hbucket hok hnone' hkeeps.buckets⟩
  · by_contra hnot
    obtain ⟨hasked, hfails⟩ := not_or.mp hnot
    have hfails' : results.contentFails = false := Bool.eq_false_iff.mpr hfails
    obtain ⟨r, hr⟩ : ∃ r, r ∈ results.content := by
      apply List.exists_mem_of_length_pos
      rw [hcontent.1]
      simp [tasksFor, hfits.content, List.length_pos_iff, hasked]
    obtain ⟨keys, rfl⟩ := exists_ok_of_hasError_eq_false hfails' r hr
    exact not_isLoadable_of_empty hcontent hr (content_cleared hrun hasked hfails') hkeeps.content

theorem FailsOnBothSides.keepsProgress
    (hrun : RunsTo digest input buckets outcomes before after results)
    (hboth : FailsOnBothSides input results) (hagree : FilesAgree input buckets results) :
    KeepsProgress digest input buckets results after := by
  obtain ⟨scanned, extracted, hmapping, hbucket, _, hcontent, hmapping', hbucket', rfl⟩ := hrun
  rw [afterContent_of_fails extracted hboth.content]
  refine ⟨?_, ?_, isLoadable_of_completes hagree.content hcontent⟩
  · rcases hboth.scan with hfails | ⟨hnone, _⟩
    · rw [hmapping', afterScan_of_scanFails scanned hfails]
      exact isLoadable_of_completes hagree.mappings hmapping
    · exact isLoadable_of_forall_not_ok hnone
  · rcases hboth.scan with hfails | ⟨_, hnone⟩
    · rw [hbucket', afterScan_of_scanFails scanned hfails]
      exact isLoadable_of_completes hagree.buckets hbucket
    · exact isLoadable_of_forall_not_ok hnone

theorem keepsProgress_iff (hrun : RunsTo digest input buckets outcomes before after results)
    (hfits : outcomes.Fits input buckets) :
    KeepsProgress digest input buckets results after ↔
      FailsOnBothSides input results ∧ FilesAgree input buckets results := by
  constructor
  · intro hkeeps
    refine ⟨hkeeps.failsOnBothSides hrun hfits, ?_⟩
    exact ⟨hkeeps.mappings.agreesByFile, hkeeps.buckets.agreesByFile, hkeeps.content.agreesByFile⟩
  · rintro ⟨hboth, hagree⟩
    exact hboth.keepsProgress hrun hagree

/-- A failed run keeps its progress exactly if items failed on both sides and none of its
files is shared by items that delivered different things. -/
theorem failedRun_keepsProgress_iff
    (hrun : RunsTo digest input buckets outcomes before after results)
    (hfits : outcomes.Fits input buckets) :
    (results.scanFails = true ∨ results.contentFails = true →
        KeepsProgress digest input buckets results after) ↔
      (results.scanFails = true ∨ results.contentFails = true →
        FailsOnBothSides input results ∧ FilesAgree input buckets results) :=
  imp_congr_right fun _ ↦ keepsProgress_iff hrun hfits

end Run

/-! ## Photos and lessons -/

/-- The photos, with the lessons as a rich-text column. -/
def lessonsInput : RunInput :=
  { usersInput ["id".toList] with
    contentMappings := some [⟨"lessons".toList, "body".toList, none⟩] }

def lessonsOutcomes (mapping : Except Str (List (DbFileReference ℕ))) : ItemOutcomes ℕ :=
  { usersOutcomes [mapping] with content := [.error timedOut] }

theorem lessonsOutcomes_fits (mapping : Except Str (List (DbFileReference ℕ))) :
    (lessonsOutcomes mapping).Fits lessonsInput ["scola".toList] := ⟨rfl, rfl, rfl⟩

/-- The photos and the lessons fail, and the bucket is kept. -/
theorem failedRun_keepsProgress_iff_both :
    let run := runInOrder id lessonsInput ["scola".toList]
      (lessonsOutcomes (.error timedOut)) .empty
    (run.2.scanFails = true ∨ run.2.contentFails = true →
        KeepsProgress id lessonsInput ["scola".toList] run.2 run.1) ↔
      (run.2.scanFails = true ∨ run.2.contentFails = true →
        FailsOnBothSides lessonsInput run.2 ∧
          FilesAgree lessonsInput ["scola".toList] run.2) :=
  failedRun_keepsProgress_iff (runsTo_runInOrder id lessonsInput ["scola".toList] _ .empty)
    (lessonsOutcomes_fits _)

/-- Only the lessons fail, and the photos have to be read again. -/
theorem failedRun_loses_scan :
    ∃ (after : Checkpoints CheckpointKey ℕ) (results : ItemOutcomes ℕ),
      RunsTo id lessonsInput ["scola".toList] (lessonsOutcomes (.ok [usersReference 1])) .empty
        after results ∧
      results.mappings = [.ok [usersReference 1]] ∧ results.contentFails = true ∧
        ¬ KeepsProgress id lessonsInput ["scola".toList] results after := by
  refine ⟨_, _, runsTo_runInOrder id lessonsInput ["scola".toList]
    (lessonsOutcomes (.ok [usersReference 1])) .empty, rfl, rfl, ?_⟩
  intro hkeeps
  have hfile := hkeeps.mappings 0 "users.photo".toList [usersReference 1] rfl rfl
  cases hfile

end StorageReconciler
