import StorageReconciler.Checkpoints
import StorageReconciler.Fetching
import StorageReconciler.Foundations.ResumablePool

/-!
# Runs with checkpoints

A run works off its mappings, its buckets and its rich-text columns, each in a
pool of workers over the checkpoints.  The directory of a phase is removed once
nothing in it failed.  What the items deliver, from a checkpoint or fetched, is
then classified.
-/

namespace StorageReconciler

open Strings ResumablePool

variable {ι κ : Type*}

structure RunInput where
  request : ReconciliationRequest
  contentMappings : Option (List TableColumnMapping)

/-- The rich-text columns; an empty list asks for none. -/
def RunInput.content (input : RunInput) : List TableColumnMapping :=
  input.contentMappings.getD []

/-- The request whose checkpoints the rich-text columns use. -/
def RunInput.contentRequest (input : RunInput) : ReconciliationRequest :=
  { input.request with mappings := input.content }

/-- One entry for each item of a run: how fetching and saving it would end, or how
the work on it ended. -/
structure ItemOutcomes (κ : Type*) where
  mappings : List (Except Str (List (DbFileReference κ)))
  buckets : List (Except Str (List StorageObject))
  content : List (Except Str (Finset Str × ℕ))

/-- The items of a phase with the names of their files. -/
def tasksFor {δ : Type*} (id : ι) (names : List Str) (outcomes : List (Except Str δ)) :
    List (Task (ι × Str) δ Str) :=
  (names.map fun name ↦ (id, safeName name)).zip outcomes

def hasError {δ : Type*} (report : Str → Option Str) (results : List (Except Str δ)) : Bool :=
  results.any fun r ↦
    match r with
    | .ok _ => false
    | .error e => (report e).isSome

section Run

variable [DecidableEq ι] (digest : CheckpointKey → ι)

def checkpointIdFor (request : ReconciliationRequest) : ι := digest (checkpointKeyFor request)

/-- The checkpoints once mappings and buckets are through. -/
def afterScan (input : RunInput) (results : ItemOutcomes κ) (scanned : Checkpoints ι κ) :
    Checkpoints ι κ :=
  if hasError some results.mappings || hasError bucketError results.buckets then scanned
  else scanned.clear (checkpointIdFor digest input.request)

/-- The checkpoints once the rich-text columns are through as well. -/
def afterContent (input : RunInput) (results : ItemOutcomes κ) (extracted : Checkpoints ι κ) :
    Checkpoints ι κ :=
  if input.content = [] || hasError some results.content then extracted
  else extracted.clear (checkpointIdFor digest input.contentRequest)

/-- A run over the buckets leads from checkpoints `before` to `after`, whatever the
order of the workers' steps. -/
def RunsTo (input : RunInput) (buckets : List Str) (outcomes : ItemOutcomes κ)
    (before after : Checkpoints ι κ) (results : ItemOutcomes κ) : Prop :=
  ∃ scanned extracted : Checkpoints ι κ,
    Completes (tasksFor (checkpointIdFor digest input.request)
        (input.request.mappings.map mappingKey) outcomes.mappings)
      before.mapping scanned.mapping results.mappings ∧
    Completes (tasksFor (checkpointIdFor digest input.request) buckets outcomes.buckets)
      before.bucket scanned.bucket results.buckets ∧
    scanned.content = before.content ∧
    Completes (tasksFor (checkpointIdFor digest input.contentRequest)
        (input.content.map mappingKey) outcomes.content)
      (afterScan digest input results scanned).content extracted.content results.content ∧
    extracted.mapping = (afterScan digest input results scanned).mapping ∧
    extracted.bucket = (afterScan digest input results scanned).bucket ∧
    after = afterContent digest input results extracted

/-- What the items delivered, those that failed counting as empty. -/
def ItemOutcomes.scan (results : ItemOutcomes κ) (input : RunInput) : ScanData κ where
  mappingResults := results.mappings.map fun r ↦ (itemResult [] some r).value
  bucketResults := results.buckets.map fun r ↦ (itemResult [] bucketError r).value
  contentResults :=
    if input.content = [] then none
    else some (results.content.map fun r ↦ (itemResult (∅, 0) some r).value)

def runResult (T : Tables) (env : Env) (input : RunInput) (buckets : List Str)
    (results : ItemOutcomes κ) : ReconciliationResult κ :=
  reconcile T env input.request buckets (results.scan input)

/-- No item failed. -/
structure ItemOutcomes.AllOk (results : ItemOutcomes κ) : Prop where
  mappings : ∀ r ∈ results.mappings, ∃ refs, r = .ok refs
  buckets : ∀ r ∈ results.buckets, ∃ objs, r = .ok objs
  content : ∀ r ∈ results.content, ∃ keys, r = .ok keys

/-- Every phase is worked off one item after the other. -/
def runInOrder (input : RunInput) (buckets : List Str) (outcomes : ItemOutcomes κ)
    (before : Checkpoints ι κ) : Checkpoints ι κ × ItemOutcomes κ :=
  let mappings := inOrder before.mapping (tasksFor (checkpointIdFor digest input.request)
    (input.request.mappings.map mappingKey) outcomes.mappings)
  let listings := inOrder before.bucket
    (tasksFor (checkpointIdFor digest input.request) buckets outcomes.buckets)
  let scanned := afterScan digest input ⟨mappings.2, listings.2, []⟩
    ⟨mappings.1, listings.1, before.content⟩
  let content := inOrder scanned.content (tasksFor (checkpointIdFor digest input.contentRequest)
    (input.content.map mappingKey) outcomes.content)
  (afterContent digest input ⟨mappings.2, listings.2, content.2⟩
    { scanned with content := content.1 }, ⟨mappings.2, listings.2, content.2⟩)

def sequentialRun (input : RunInput) (buckets : List Str) (outcomes : ItemOutcomes κ) :
    ItemOutcomes κ :=
  (runInOrder digest input buckets outcomes .empty).2

theorem runsTo_runInOrder (input : RunInput) (buckets : List Str) (outcomes : ItemOutcomes κ)
    (before : Checkpoints ι κ) :
    RunsTo digest input buckets outcomes before
      (runInOrder digest input buckets outcomes before).1
      (runInOrder digest input buckets outcomes before).2 :=
  ⟨⟨_, _, before.content⟩, ⟨_, _, _⟩, completes_inOrder _ _, completes_inOrder _ _, rfl,
    completes_inOrder _ _, rfl, rfl, rfl⟩

end Run

/-! ## What checkpoints and results hold -/

/-- Every file holds data that its name admits. -/
structure Checkpoints.Sound (M : ι × Str → List (DbFileReference κ) → Prop)
    (B : ι × Str → List StorageObject → Prop) (C : ι × Str → Finset Str × ℕ → Prop)
    (checkpoints : Checkpoints ι κ) : Prop where
  mapping : ∀ f d, checkpoints.mapping f = some d → M f d
  bucket : ∀ f d, checkpoints.bucket f = some d → B f d
  content : ∀ f d, checkpoints.content f = some d → C f d

section Sound

variable {M M' : ι × Str → List (DbFileReference κ) → Prop}
  {B B' : ι × Str → List StorageObject → Prop} {C C' : ι × Str → Finset Str × ℕ → Prop}

theorem Checkpoints.sound_empty : (Checkpoints.empty : Checkpoints ι κ).Sound M B C :=
  ⟨fun _ _ h ↦ (nomatch h), fun _ _ h ↦ (nomatch h), fun _ _ h ↦ (nomatch h)⟩

theorem Checkpoints.Sound.mono {checkpoints : Checkpoints ι κ} (h : checkpoints.Sound M B C)
    (hM : ∀ f d, M f d → M' f d) (hB : ∀ f d, B f d → B' f d) (hC : ∀ f d, C f d → C' f d) :
    checkpoints.Sound M' B' C' :=
  ⟨fun f d hd ↦ hM f d (h.mapping f d hd), fun f d hd ↦ hB f d (h.bucket f d hd),
    fun f d hd ↦ hC f d (h.content f d hd)⟩

variable [DecidableEq ι]

theorem Checkpoints.Sound.clear {checkpoints : Checkpoints ι κ} (h : checkpoints.Sound M B C)
    (id : ι) : (checkpoints.clear id).Sound M B C :=
  ⟨fun f d hd ↦ h.mapping f d (clearFiles_eq_some hd),
    fun f d hd ↦ h.bucket f d (clearFiles_eq_some hd),
    fun f d hd ↦ h.content f d (clearFiles_eq_some hd)⟩

theorem forall₂_of_completes {α δ : Type*} {id : ι} {items : List α} {name : α → Str}
    {outcomes results : List (Except Str δ)} {store store' : ι × Str → Option δ}
    {P : ι × Str → δ → Prop} {R : α → Except Str δ → Prop}
    (h : Completes (tasksFor id (items.map name) outcomes) store store' results)
    (hfetched : List.Forall₂ R items outcomes) (hstore : ∀ f d, store f = some d → P f d)
    (hR : ∀ a ∈ items, ∀ d, R a (.ok d) → P (id, safeName (name a)) d) :
    (∀ f d, store' f = some d → P f d) ∧
      ((∀ r ∈ results, ∃ d, r = .ok d) →
        List.Forall₂ (fun a r ↦ ∃ d, r = .ok d ∧ P (id, safeName (name a)) d) items results) := by
  have hlen : outcomes.length = items.length := hfetched.length_eq.symm
  have htasks : ∀ i (hi : i < items.length), (tasksFor id (items.map name) outcomes)[i]? =
      some ((id, safeName (name items[i])), outcomes[i]) := by
    intro i hi
    simp [tasksFor, hi, hlen]
  have hok : ∀ f d, (f, Except.ok d) ∈ tasksFor id (items.map name) outcomes → P f d := by
    intro f d hmem
    obtain ⟨i, hi⟩ := List.mem_iff_getElem?.mp hmem
    have hlt : i < items.length := by
      have hbound := (List.getElem?_eq_some_iff.mp hi).1
      simpa [tasksFor, hlen] using hbound
    have hitem := (htasks i hlt).symm.trans hi
    obtain ⟨rfl, heq⟩ := Prod.mk.inj (Option.some.inj hitem)
    have hread := hfetched.get hlt (hlen ▸ hlt)
    exact hR _ (List.getElem_mem hlt) d (by simpa [heq] using hread)
  obtain ⟨hsound, hresults⟩ := h.sound hstore hok
  refine ⟨hsound, fun hall ↦ List.forall₂_iff_get.mpr ⟨?_, fun i hi hi' ↦ ?_⟩⟩
  · rw [h.1]
    simp [tasksFor, hlen]
  · obtain ⟨d, hd⟩ := hall _ (List.get_mem results ⟨i, hi'⟩)
    rcases hresults i _ _ _ (htasks i hi) (List.getElem?_eq_getElem hi') with
      ⟨d', hd', hP⟩ | ⟨e, he, _⟩
    · exact ⟨d', hd', hP⟩
    · exact absurd (he.symm.trans hd) (by simp)

/-- Each item of a run was delivered with data that the name of its file admits. -/
structure DeliversSound (digest : CheckpointKey → ι) (M : ι × Str → List (DbFileReference κ) → Prop)
    (B : ι × Str → List StorageObject → Prop) (C : ι × Str → Finset Str × ℕ → Prop)
    (input : RunInput) (buckets : List Str) (results : ItemOutcomes κ) : Prop where
  mappings : List.Forall₂ (fun m r ↦ ∃ refs, r = .ok refs ∧
    M (checkpointIdFor digest input.request, safeName (mappingKey m)) refs)
    input.request.mappings results.mappings
  buckets : List.Forall₂ (fun b r ↦ ∃ objs, r = .ok objs ∧
    B (checkpointIdFor digest input.request, safeName b) objs) buckets results.buckets
  content : List.Forall₂ (fun m r ↦ ∃ keys, r = .ok keys ∧
    C (checkpointIdFor digest input.contentRequest, safeName (mappingKey m)) keys)
    input.content results.content

/-- A run keeps the checkpoints sound, and what it delivers is. -/
theorem RunsTo.sound {digest : CheckpointKey → ι} {input : RunInput} {buckets : List Str}
    {outcomes results : ItemOutcomes κ} {before after : Checkpoints ι κ}
    {RM : TableColumnMapping → Except Str (List (DbFileReference κ)) → Prop}
    {RB : Str → Except Str (List StorageObject) → Prop}
    {RC : TableColumnMapping → Except Str (Finset Str × ℕ) → Prop}
    (h : RunsTo digest input buckets outcomes before after results)
    (hbefore : before.Sound M B C)
    (hmappings : List.Forall₂ RM input.request.mappings outcomes.mappings)
    (hbuckets : List.Forall₂ RB buckets outcomes.buckets)
    (hcontent : List.Forall₂ RC input.content outcomes.content)
    (hM : ∀ m ∈ input.request.mappings, ∀ refs, RM m (.ok refs) →
      M (checkpointIdFor digest input.request, safeName (mappingKey m)) refs)
    (hB : ∀ b ∈ buckets, ∀ objs, RB b (.ok objs) →
      B (checkpointIdFor digest input.request, safeName b) objs)
    (hC : ∀ m ∈ input.content, ∀ keys, RC m (.ok keys) →
      C (checkpointIdFor digest input.contentRequest, safeName (mappingKey m)) keys) :
    after.Sound M B C ∧ (results.AllOk → DeliversSound digest M B C input buckets results) := by
  obtain ⟨scanned, extracted, hmapping, hbucket, hsame, hextract, hmapping', hbucket', rfl⟩ := h
  obtain ⟨hstoreM, hresM⟩ := forall₂_of_completes hmapping hmappings hbefore.mapping hM
  rw [← List.map_id buckets] at hbucket
  obtain ⟨hstoreB, hresB⟩ := forall₂_of_completes hbucket hbuckets hbefore.bucket hB
  have hscanned : scanned.Sound M B C := ⟨hstoreM, hstoreB, hsame ▸ hbefore.content⟩
  have hscan : (afterScan digest input results scanned).Sound M B C := by
    unfold afterScan
    split_ifs
    · exact hscanned
    · exact hscanned.clear _
  obtain ⟨hstoreC, hresC⟩ := forall₂_of_completes hextract hcontent hscan.content hC
  have hextracted : extracted.Sound M B C :=
    ⟨hmapping' ▸ hscan.mapping, hbucket' ▸ hscan.bucket, hstoreC⟩
  refine ⟨?_, fun hok ↦ ⟨hresM hok.mappings, hresB hok.buckets, hresC hok.content⟩⟩
  unfold afterContent
  split_ifs
  · exact hextracted
  · exact hextracted.clear _

end Sound

end StorageReconciler
