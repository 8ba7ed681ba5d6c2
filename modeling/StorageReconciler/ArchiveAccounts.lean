import StorageReconciler.ArchiveReports
import StorageReconciler.ArchivedContents
import StorageReconciler.Foundations.Tallies

/-!
# What the events of an archive job add up to

The workers of a job count the items that they have copied, and those that they have
verified, and tell each number with the outcome of the item.  However their steps
interleave, no number is told twice, and the outcomes that were told one by one are
those of the final event.
-/

namespace StorageReconciler

open Strings Workers Tallies

/-! ## Outcomes among the events -/

/-- The number and the result that the end of an item carries; no other event has a result. -/
def itemDone? (e : ArchiveEvent) : Option (ℕ × ArchiveResult) :=
  match e.data with
  | .fields _ _ _ (.archiveProgress completed _ _ _ (some result)) => some (completed, result)
  | _ => none

/-- The number of a copied item, with its key and whether it succeeded and was skipped. -/
def copyDone? (e : ArchiveEvent) : Option (ℕ × (Str × Bool × Bool)) :=
  match e.data with
  | .fields _ key _ (.copyProgress completed _ success skipped) =>
      some (completed, key.getD [], success, skipped)
  | _ => none

def doneResults? (e : ArchiveEvent) : Option (List ArchiveResult) :=
  match e.data with
  | .fields _ _ _ (.done results) => some results
  | _ => none

variable {σ δ : Type*}

namespace ReportingJob

variable (p : ReportingJob σ δ)

def itemDones : List (ℕ × ArchiveResult) := p.emissions.filterMap fun x ↦ itemDone? x.event

def copyDones : List (ℕ × (Str × Bool × Bool)) :=
  p.emissions.filterMap fun x ↦ copyDone? x.event

def dones : List (List ArchiveResult) := p.emissions.filterMap fun x ↦ doneResults? x.event

@[simp] theorem itemDones_emit (owner : Option (Str × Str)) (e : ArchiveEvent) :
    (p.emit owner e).itemDones = p.itemDones ++ (itemDone? e).toList := by
  cases he : itemDone? e <;> simp [itemDones, emit, he]

@[simp] theorem copyDones_emit (owner : Option (Str × Str)) (e : ArchiveEvent) :
    (p.emit owner e).copyDones = p.copyDones ++ (copyDone? e).toList := by
  cases he : copyDone? e <;> simp [copyDones, emit, he]

@[simp] theorem dones_emit (owner : Option (Str × Str)) (e : ArchiveEvent) :
    (p.emit owner e).dones = p.dones ++ (doneResults? e).toList := by
  cases he : doneResults? e <;> simp [dones, emit, he]

/-- No number was told twice, and none above that of the items. -/
structure TellsOnce : Prop where
  items : (p.itemDones.map Prod.fst).Nodup ∧ ∀ n ∈ p.itemDones.map Prod.fst, 1 ≤ n ∧ n ≤ p.total
  copies : (p.copyDones.map Prod.fst).Nodup ∧ ∀ n ∈ p.copyDones.map Prod.fst, 1 ≤ n ∧ n ≤ p.total

/-- The results are those of the items, and what was told of these one by one. -/
structure AccountsFor (results : List ArchiveResult) : Prop where
  items : results.map (fun r ↦ (r.bucket, r.key)) = p.run.items
  itemNumbers : (p.itemDones.map Prod.fst).Perm (List.range' 1 p.total)
  itemResults : (p.itemDones.map Prod.snd).Perm results
  copyNumbers : (p.copyDones.map Prod.fst).Perm (List.range' 1 p.total)
  copyResults : (p.copyDones.map Prod.snd).Perm
    (results.map fun r ↦ (r.key, r.copySuccess, r.copySkipped))

end ReportingJob

/-! ## Whose results they are -/

/-- A result goes on from that of the copy. -/
def ArchiveResult.OfCopy (result : ArchiveResult) (copied : CopyResult) : Prop :=
  result.bucket = copied.bucket ∧ result.key = copied.key ∧
    result.copySuccess = copied.success ∧ result.copySkipped = copied.skipped

structure ArchiveRun.Attributed (run : ArchiveRun σ δ) : Prop where
  copied : ∀ i item copied, run.items[i]? = some item → run.copy i = .done copied →
    (copied.bucket, copied.key) = item
  verified : ∀ i result, run.verify i = .done result →
    ∃ copied, run.copy i = .done copied ∧ result.OfCopy copied

section Steps

variable [DecidableEq σ] {archive : σ} {sha256 : List UInt8 → δ}
  {named : Location σ → ObjectHead → List UInt8}

theorem CopyOne.outcome_eq {call : CopyCall σ} {bucketErrors : Str → Option Str}
    {item : Str × Str} {s s' : CopyState σ} {t : CopyStatus} {result : CopyResult}
    (h : CopyOne call bucketErrors item s t s' (.done result)) :
    (result.bucket, result.key) = item ∧ ∀ result', t ≠ .done result' := by
  cases h <;> exact ⟨rfl, fun _ ↦ nofun⟩

theorem CopyOne.not_done {call : CopyCall σ} {bucketErrors : Str → Option Str}
    {item : Str × Str} {s s' : CopyState σ} {t t' : CopyStatus}
    (h : CopyOne call bucketErrors item s t s' t') (result : CopyResult) : t ≠ .done result := by
  cases h <;> exact nofun

omit [DecidableEq σ] in
theorem VerifyOne.not_done {objects : Objects σ} {run : ArchiveRun σ δ} {item : Str × Str}
    {copied : CopyResult} {t t' : VerifyStatus δ}
    (h : VerifyOne archive sha256 named objects run item copied t t') (result : ArchiveResult) :
    t ≠ .done result := by
  cases h with
  | fails success verifying =>
      rintro rfl
      exact Bool.false_ne_true verifying
  | _ => exact nofun

omit [DecidableEq σ] in
theorem VerifyOne.ofCopy {objects : Objects σ} {run : ArchiveRun σ δ} {item : Str × Str}
    {copied : CopyResult} {t : VerifyStatus δ} {result : ArchiveResult}
    (h : VerifyOne archive sha256 named objects run item copied t (.done result)) :
    result.OfCopy copied := by
  cases h <;> exact ⟨rfl, rfl, rfl, rfl⟩

theorem DeleteOne.ofCopy {objects objects' : Objects σ} {copied : CopyResult}
    {source : ObjectHead} {l : Location σ} {result : ArchiveResult}
    (h : DeleteOne copied source l objects objects' result) : result.OfCopy copied := by
  cases h <;> exact ⟨rfl, rfl, rfl, rfl⟩

/-- What is done stays done. -/
theorem RunStep.done_kept {objects objects' : Objects σ} {run run' : ArchiveRun σ δ}
    (h : RunStep archive sha256 named objects run objects' run') :
    (∀ i copied, run.copy i = .done copied → run'.copy i = .done copied) ∧
      ∀ i result, run.verify i = .done result → run'.verify i = .done result := by
  cases h with
  | @copies _ i item state status phase at_item step =>
      refine ⟨fun j copied hj ↦ ?_, fun _ _ hj ↦ hj⟩
      have hji : j ≠ i := by
        rintro rfl
        exact step.not_done copied hj
      exact (Function.update_of_ne hji _ _).trans hj
  | @verify _ i item copied status phase at_item copy step =>
      refine ⟨fun _ _ hj ↦ hj, fun j result hj ↦ ?_⟩
      have hji : j ≠ i := by
        rintro rfl
        exact step.not_done result hj
      exact (Function.update_of_ne hji _ _).trans hj
  | @delete _ _ i item copied source result phase at_item copy approved request =>
      refine ⟨fun _ _ hj ↦ hj, fun j result hj ↦ ?_⟩
      have hji : j ≠ i := by
        rintro rfl
        exact nomatch approved.symm.trans hj
      exact (Function.update_of_ne hji _ _).trans hj
  | _ => exact ⟨fun _ _ hj ↦ hj, fun _ _ hj ↦ hj⟩

omit [DecidableEq σ] in
theorem ArchiveRun.Attributed.verify {run : ArchiveRun σ δ} (h : run.Attributed) {i : ℕ}
    {copied : CopyResult} {status : VerifyStatus δ} (hcopy : run.copy i = .done copied)
    (hstatus : ∀ result, status = .done result → result.OfCopy copied) :
    ArchiveRun.Attributed { run with verify := Function.update run.verify i status } := by
  refine ⟨h.copied, fun j result hj ↦ ?_⟩
  rcases update_eq_cases hj with ⟨rfl, hdone⟩ | ⟨_, hdone⟩
  · exact ⟨copied, hcopy, hstatus result hdone⟩
  · exact h.verified j result hdone

theorem RunStep.attributed {objects objects' : Objects σ} {run run' : ArchiveRun σ δ}
    (h : RunStep archive sha256 named objects run objects' run') (hrun : run.Attributed) :
    run'.Attributed := by
  have hkept := h.done_kept
  cases h with
  | @copies _ i item state status phase at_item step =>
      refine ⟨fun j item' copied hitem hj ↦ ?_, fun j result hj ↦ ?_⟩
      · rcases update_eq_cases hj with ⟨rfl, rfl⟩ | ⟨_, hdone⟩
        · obtain rfl := Option.some.inj (at_item.symm.trans hitem)
          exact step.outcome_eq.1
        · exact hrun.copied j item' copied hitem hdone
      · obtain ⟨copied, hcopy, hof⟩ := hrun.verified j result hj
        exact ⟨copied, hkept.1 j copied hcopy, hof⟩
  | verify phase at_item copy step => exact hrun.verify copy fun _ hdone ↦ (hdone ▸ step).ofCopy
  | delete phase at_item copy approved request =>
      apply hrun.verify copy
      intro result hdone
      obtain rfl := VerifyStatus.done.inj hdone
      exact request.ofCopy
  | _ => exact ⟨hrun.copied, hrun.verified⟩

end Steps

/-! ## The tallies of a job -/

/-- How far the telling of a copy is. -/
def CopyTold (run : ArchiveRun σ δ) (i : ℕ) (stage : Stage (Str × Bool × Bool)) :
    CopyReport → Prop
  | .due => stage = .due
  | .counted n => stage = .counted n
  | .told => ∃ n item copied, run.items[i]? = some item ∧ run.copy i = .done copied ∧
      stage = .told n (item.2, copied.success, copied.skipped)

/-- How far the telling of a verification is. -/
def VerifyTold (run : ArchiveRun σ δ) (i : ℕ) (stage : Stage ArchiveResult) :
    VerifyReport → Prop
  | .counted n => ∃ result, run.verify i = .done result ∧ stage = .counted n
  | .itemDone n => ∃ result, run.verify i = .done result ∧ stage = .told n result
  | .ended => ∃ n result, run.verify i = .done result ∧ stage = .told n result
  | _ => stage = .due

/-- A tally of the copies of a job. -/
structure ReportingJob.TalliesCopies (p : ReportingJob σ δ) (t : Tally (Str × Bool × Bool)) :
    Prop where
  counter : t.counter = p.copyCompleted
  stage : ∀ i, CopyTold p.run i (t.stage i) (p.copyReport i)
  log : t.log = p.copyDones

/-- A tally of the verifications of a job. -/
structure ReportingJob.TalliesItems (p : ReportingJob σ δ) (t : Tally ArchiveResult) :
    Prop where
  counter : t.counter = p.verifyCompleted
  stage : ∀ i, VerifyTold p.run i (t.stage i) (p.verifyReport i)
  log : t.log = p.itemDones

theorem CopyTold.mono {run run' : ArchiveRun σ δ} {i : ℕ} {stage : Stage (Str × Bool × Bool)}
    {report : CopyReport} (hitems : run'.items = run.items)
    (hcopy : ∀ copied, run.copy i = .done copied → run'.copy i = .done copied)
    (h : CopyTold run i stage report) : CopyTold run' i stage report := by
  cases report with
  | told =>
      obtain ⟨n, item, copied, hitem, hdone, hstage⟩ := h
      exact ⟨n, item, copied, hitems ▸ hitem, hcopy copied hdone, hstage⟩
  | _ => exact h

theorem VerifyTold.mono {run run' : ArchiveRun σ δ} {i : ℕ} {stage : Stage ArchiveResult}
    {report : VerifyReport}
    (hverify : ∀ result, run.verify i = .done result → run'.verify i = .done result)
    (h : VerifyTold run i stage report) : VerifyTold run' i stage report := by
  cases report with
  | counted n =>
      obtain ⟨result, hdone, hstage⟩ := h
      exact ⟨result, hverify result hdone, hstage⟩
  | itemDone n =>
      obtain ⟨result, hdone, hstage⟩ := h
      exact ⟨result, hverify result hdone, hstage⟩
  | ended =>
      obtain ⟨n, result, hdone, hstage⟩ := h
      exact ⟨n, result, hverify result hdone, hstage⟩
  | _ => exact h

theorem VerifyTold.due {run : ArchiveRun σ δ} {i : ℕ} {stage : Stage ArchiveResult}
    {report : VerifyReport} (h : VerifyTold run i stage report)
    (hopen : ∀ result, run.verify i ≠ .done result) : stage = .due := by
  cases report with
  | counted n =>
      obtain ⟨result, hdone, _⟩ := h
      exact absurd hdone (hopen result)
  | itemDone n =>
      obtain ⟨result, hdone, _⟩ := h
      exact absurd hdone (hopen result)
  | ended =>
      obtain ⟨_, result, hdone, _⟩ := h
      exact absurd hdone (hopen result)
  | _ => exact h

/-- A worker goes on to another report. -/
theorem VerifyTold.update {run : ArchiveRun σ δ} {reports : ℕ → VerifyReport} {i : ℕ}
    {report : VerifyReport}
    (hnew : ∀ stage, VerifyTold run i stage (reports i) → VerifyTold run i stage report) (j : ℕ)
    (stage : Stage ArchiveResult) (h : VerifyTold run j stage (reports j)) :
    VerifyTold run j stage (Function.update reports i report j) := by
  by_cases hji : j = i
  · subst hji
    rw [Function.update_self]
    exact hnew stage h
  · rwa [Function.update_of_ne hji]

theorem itemDone?_progress {phase : Str} (hphase : phase ≠ "item_done".toList)
    (index total : ℕ) (item : Str × Str) (result : ArchiveResult) (transferred totalBytes : ℕ)
    (completed : Option ℕ) :
    itemDone? (progress phase index total item result transferred totalBytes completed) = none := by
  unfold progress
  generalize "item_done".toList = name at hphase
  generalize "archive_progress".toList = event
  simp only [itemDone?, if_neg hphase]

theorem VerifyStatus.digesting_open {t : VerifyStatus δ} {phase : Str} {source : ObjectHead}
    (h : t.digesting = some (phase, source)) :
    phase ≠ "item_done".toList ∧ ∀ result, t ≠ .done result := by
  cases t with
  | sized source' =>
      obtain ⟨rfl, rfl⟩ := Prod.mk.inj (Option.some.inj h)
      exact ⟨by decide, fun _ ↦ nofun⟩
  | hashed source' digest =>
      obtain ⟨rfl, rfl⟩ := Prod.mk.inj (Option.some.inj h)
      exact ⟨by decide, fun _ ↦ nofun⟩
  | _ => exact nomatch h

section Simulation

variable [DecidableEq σ] {archive : σ} {sha256 : List UInt8 → δ}
  {named : Location σ → ObjectHead → List UInt8} {p q : ReportingJob σ δ}

theorem ReportStep.items_eq (h : ReportStep archive sha256 named p q) :
    q.run.items = p.run.items := by
  rcases h.runStep with hrun | hrun | hrun
  · rw [hrun]
  · exact hrun.items_eq.1
  · rw [hrun]

theorem ReportStep.done_kept (h : ReportStep archive sha256 named p q) :
    (∀ i copied, p.run.copy i = .done copied → q.run.copy i = .done copied) ∧
      ∀ i result, p.run.verify i = .done result → q.run.verify i = .done result := by
  rcases h.runStep with hrun | hrun | hrun
  · rw [hrun]
    exact ⟨fun _ _ hi ↦ hi, fun _ _ hi ↦ hi⟩
  · exact hrun.done_kept
  · rw [hrun]
    exact ⟨fun _ _ hi ↦ hi, fun _ _ hi ↦ hi⟩

theorem ReportStep.attributed (h : ReportStep archive sha256 named p q)
    (hp : p.run.Attributed) : q.run.Attributed := by
  rcases h.runStep with hrun | hrun | hrun
  · rwa [hrun]
  · exact hrun.attributed hp
  · rw [hrun]
    exact ⟨hp.copied, hp.verified⟩

/-- What a step does to the count of the copies. -/
theorem ReportStep.copy_cases (h : ReportStep archive sha256 named p q) :
    q.copyCompleted = p.copyCompleted ∧ q.copyReport = p.copyReport ∧
        q.copyDones = p.copyDones ∨
      (∃ i < p.total, p.copyReport i = .due ∧ q.copyCompleted = p.copyCompleted + 1 ∧
        q.copyReport = Function.update p.copyReport i (.counted (p.copyCompleted + 1)) ∧
        q.copyDones = p.copyDones) ∨
      ∃ i n item copied, p.run.items[i]? = some item ∧ p.run.copy i = .done copied ∧
        p.copyReport i = .counted n ∧ q.copyCompleted = p.copyCompleted ∧
        q.copyReport = Function.update p.copyReport i .told ∧
        q.copyDones = p.copyDones ++ [(n, item.2, copied.success, copied.skipped)] := by
  cases h with
  | @item p' i item e? working at_item step =>
      obtain ⟨hi, _⟩ := List.getElem?_eq_some_iff.mp at_item
      cases step with
      | countsCopy phase copy due => exact .inr (.inl ⟨i, hi, due, rfl, rfl, rfl⟩)
      | @tellsCopy copied completed phase copy counted =>
          exact .inr (.inr ⟨i, completed, item, copied, at_item, copy, counted, rfl, rfl,
            ReportingJob.copyDones_emit _ _ _⟩)
      | uploads now bytesAmount phase uploading =>
          left
          cases ((p.callback i).callback _ now bytesAmount).2 with
          | none => exact ⟨rfl, rfl, rfl⟩
          | some sent =>
              exact ⟨rfl, rfl, (ReportingJob.copyDones_emit _ _ _).trans (List.append_nil _)⟩
      | copies => exact .inl ⟨rfl, rfl, rfl⟩
      | readsChunk => exact .inl ⟨rfl, rfl, rfl⟩
      | verifies => exact .inl ⟨rfl, rfl, rfl⟩
      | deletes => exact .inl ⟨rfl, rfl, rfl⟩
      | countsItem => exact .inl ⟨rfl, rfl, rfl⟩
      | ends => exact .inl ⟨rfl, rfl, rfl⟩
      | _ =>
          exact .inl ⟨rfl, rfl, (ReportingJob.copyDones_emit _ _ _).trans (List.append_nil _)⟩
  | others => exact .inl ⟨rfl, rfl, rfl⟩
  | begins => exact .inl ⟨rfl, rfl, rfl⟩
  | verifies => exact .inl ⟨rfl, rfl, rfl⟩
  | finishes => exact .inl ⟨rfl, rfl, rfl⟩
  | returns => exact .inl ⟨rfl, rfl, rfl⟩
  | raises => exact .inl ⟨rfl, rfl, rfl⟩
  | finish => exact .inl ⟨rfl, rfl, rfl⟩
  | _ => exact .inl ⟨rfl, rfl, (ReportingJob.copyDones_emit _ _ _).trans (List.append_nil _)⟩

/-- What a step does to the count of the verifications.  A worker that is not counted yet
goes on, and one that has told ends. -/
theorem ReportStep.item_cases (h : ReportStep archive sha256 named p q) :
    (q.verifyCompleted = p.verifyCompleted ∧ q.itemDones = p.itemDones ∧
        ∀ i stage, VerifyTold p.run i stage (p.verifyReport i) →
          VerifyTold q.run i stage (q.verifyReport i)) ∨
      (∃ i < p.total, (∃ result, q.run.verify i = .done result) ∧
        (∀ stage, VerifyTold p.run i stage (p.verifyReport i) → stage = .due) ∧
        q.verifyCompleted = p.verifyCompleted + 1 ∧
        q.verifyReport = Function.update p.verifyReport i (.counted (p.verifyCompleted + 1)) ∧
        q.itemDones = p.itemDones) ∨
      ∃ i n result, p.run.verify i = .done result ∧ p.verifyReport i = .counted n ∧
        q.verifyCompleted = p.verifyCompleted ∧
        q.verifyReport = Function.update p.verifyReport i (.itemDone n) ∧
        q.itemDones = p.itemDones ++ [(n, result)] := by
  have hkept := h.done_kept.2
  have hsame : q.verifyReport = p.verifyReport → ∀ i stage,
      VerifyTold p.run i stage (p.verifyReport i) → VerifyTold q.run i stage (q.verifyReport i) :=
    fun hreport i _ htold ↦ hreport ▸ htold.mono (hkept i)
  have hsilent {phase : Str} (hphase : phase ≠ "item_done".toList) {item : Str × Str}
      {result : ArchiveResult} {p' : ReportingJob σ δ} (index total transferred totalBytes : ℕ) :
      (p'.emit (some item)
        (progress phase index total item result transferred totalBytes none)).itemDones =
      p'.itemDones := by
    rw [ReportingJob.itemDones_emit, itemDone?_progress hphase]
    exact List.append_nil _
  cases h with
  | @item p' i item e? working at_item step =>
      obtain ⟨hi, _⟩ := List.getElem?_eq_some_iff.mp at_item
      cases step with
      | countsItem phase done uncounted goesOn =>
          refine .inr (.inl ⟨i, hi, ⟨_, done⟩, fun stage htold ↦ ?_, rfl, rfl, rfl⟩)
          cases hreport : p.verifyReport i with
          | counted n => exact absurd hreport (uncounted n).1
          | itemDone n => exact absurd hreport (uncounted n).2
          | ended => exact absurd hreport goesOn
          | _ =>
              rw [hreport] at htold
              exact htold
      | @tellsItem result completed phase done counted =>
          exact .inr (.inr ⟨i, completed, result, done, counted, rfl, rfl,
            ReportingJob.itemDones_emit _ _ _⟩)
      | uploads now bytesAmount phase uploading =>
          refine .inl ⟨?_, ?_, hsame ?_⟩
          · cases ((p.callback i).callback _ now bytesAmount).2 <;> rfl
          · cases ((p.callback i).callback _ now bytesAmount).2 with
            | none => rfl
            | some sent => exact (ReportingJob.itemDones_emit _ _ _).trans (List.append_nil _)
          · cases ((p.callback i).callback _ now bytesAmount).2 <;> rfl
      | tellsCopy =>
          exact .inl ⟨rfl, (ReportingJob.itemDones_emit _ _ _).trans (List.append_nil _), hsame rfl⟩
      | checks phase copy success waiting unreported =>
          refine .inl ⟨rfl, hsilent (by decide) _ _ _ _, VerifyTold.update fun stage htold ↦ ?_⟩
          exact htold.due fun _ hdone ↦ nomatch waiting.symm.trans hdone
      | beginsDigest verifying copy digesting new =>
          obtain ⟨hphase, hopen⟩ := VerifyStatus.digesting_open digesting
          exact .inl ⟨rfl, hsilent hphase _ _ _ _, VerifyTold.update fun _ htold ↦ htold.due hopen⟩
      | readsChunk now chunk verifying copy digesting hashing quiet =>
          obtain ⟨_, hopen⟩ := VerifyStatus.digesting_open digesting
          exact .inl ⟨rfl, rfl, VerifyTold.update fun _ htold ↦ htold.due hopen⟩
      | tellsChunk now chunk verifying copy digesting hashing due =>
          obtain ⟨hphase, hopen⟩ := VerifyStatus.digesting_open digesting
          exact .inl ⟨rfl, hsilent hphase _ _ _ _, VerifyTold.update fun _ htold ↦ htold.due hopen⟩
      | tellsDeleting phase copy approved new =>
          refine .inl ⟨rfl, hsilent (by decide) _ _ _ _, VerifyTold.update fun stage htold ↦ ?_⟩
          exact htold.due fun _ hdone ↦ nomatch approved.symm.trans hdone
      | tellsDeletion phase done told attempted =>
          refine .inl ⟨rfl, (ReportingJob.itemDones_emit _ _ _).trans (List.append_nil _),
            VerifyTold.update fun stage htold ↦ ?_⟩
          rw [told] at htold
          exact ⟨_, htold⟩
      | ends phase done told kept =>
          refine .inl ⟨rfl, rfl, VerifyTold.update fun stage htold ↦ ?_⟩
          rw [told] at htold
          exact ⟨_, htold⟩
      | _ => exact .inl ⟨rfl, rfl, hsame rfl⟩
  | others => exact .inl ⟨rfl, rfl, hsame rfl⟩
  | begins => exact .inl ⟨rfl, rfl, hsame rfl⟩
  | verifies => exact .inl ⟨rfl, rfl, hsame rfl⟩
  | finishes => exact .inl ⟨rfl, rfl, hsame rfl⟩
  | returns => exact .inl ⟨rfl, rfl, hsame rfl⟩
  | raises => exact .inl ⟨rfl, rfl, hsame rfl⟩
  | finish => exact .inl ⟨rfl, rfl, hsame rfl⟩
  | _ =>
      exact .inl ⟨rfl, (ReportingJob.itemDones_emit _ _ _).trans (List.append_nil _), hsame rfl⟩

theorem ReportStep.talliesCopies (h : ReportStep archive sha256 named p q)
    {t : Tally (Str × Bool × Bool)} (hp : p.TalliesCopies t) :
    ∃ t', Relation.ReflTransGen (TallyStep p.total) t t' ∧ q.TalliesCopies t' := by
  have hmono : ∀ j stage report, CopyTold p.run j stage report → CopyTold q.run j stage report :=
    fun j _ _ ↦ CopyTold.mono h.items_eq (h.done_kept.1 j)
  rcases h.copy_cases with ⟨hcounter, hreport, hlog⟩ | ⟨i, hi, hdue, hcounter, hreport, hlog⟩ |
    ⟨i, n, item, copied, hitem, hdone, hcounted, hcounter, hreport, hlog⟩
  · refine ⟨t, .refl, hp.counter.trans hcounter.symm, fun j ↦ ?_, hp.log.trans hlog.symm⟩
    rw [hreport]
    exact hmono j _ _ (hp.stage j)
  · have hstage : t.stage i = .due := by
      have htold := hp.stage i
      rwa [hdue] at htold
    refine ⟨_, .single (.counts hi hstage), ?_, fun j ↦ ?_, hp.log.trans hlog.symm⟩
    · rw [hcounter, hp.counter]
    · rw [hreport]
      by_cases hji : j = i
      · subst hji
        rw [Function.update_self]
        change Function.update t.stage j _ j = _
        rw [Function.update_self, hp.counter]
      · rw [Function.update_of_ne hji]
        change CopyTold q.run j (Function.update t.stage i _ j) _
        rw [Function.update_of_ne hji]
        exact hmono j _ _ (hp.stage j)
  · have hstage : t.stage i = .counted n := by
      have htold := hp.stage i
      rwa [hcounted] at htold
    refine ⟨_, .single (.tells (item.2, copied.success, copied.skipped) hstage),
      hp.counter.trans hcounter.symm, fun j ↦ ?_, ?_⟩
    · rw [hreport]
      by_cases hji : j = i
      · subst hji
        rw [Function.update_self]
        exact ⟨n, item, copied, h.items_eq ▸ hitem, h.done_kept.1 j copied hdone,
          Function.update_self j _ t.stage⟩
      · rw [Function.update_of_ne hji]
        change CopyTold q.run j (Function.update t.stage i _ j) _
        rw [Function.update_of_ne hji]
        exact hmono j _ _ (hp.stage j)
    · rw [hlog, ← hp.log]

theorem ReportStep.talliesItems (h : ReportStep archive sha256 named p q)
    {t : Tally ArchiveResult} (hp : p.TalliesItems t) :
    ∃ t', Relation.ReflTransGen (TallyStep p.total) t t' ∧ q.TalliesItems t' := by
  have hmono : ∀ j stage report,
      VerifyTold p.run j stage report → VerifyTold q.run j stage report :=
    fun j _ _ ↦ VerifyTold.mono (h.done_kept.2 j)
  rcases h.item_cases with ⟨hcounter, hlog, hreport⟩ |
    ⟨i, hi, ⟨result, hdone⟩, hdue, hcounter, hreport, hlog⟩ |
    ⟨i, n, result, hdone, hcounted, hcounter, hreport, hlog⟩
  · exact ⟨t, .refl, hp.counter.trans hcounter.symm, fun j ↦ hreport j _ (hp.stage j),
      hp.log.trans hlog.symm⟩
  · refine ⟨_, .single (.counts hi (hdue _ (hp.stage i))), ?_, fun j ↦ ?_,
      hp.log.trans hlog.symm⟩
    · rw [hcounter, hp.counter]
    · rw [hreport]
      by_cases hji : j = i
      · subst hji
        rw [Function.update_self]
        refine ⟨result, hdone, (Function.update_self j _ t.stage).trans ?_⟩
        rw [hp.counter]
      · rw [Function.update_of_ne hji]
        change VerifyTold q.run j (Function.update t.stage i _ j) _
        rw [Function.update_of_ne hji]
        exact hmono j _ _ (hp.stage j)
  · have hstage : t.stage i = .counted n := by
      have htold := hp.stage i
      rw [hcounted] at htold
      obtain ⟨_, _, hstage⟩ := htold
      exact hstage
    refine ⟨_, .single (.tells result hstage), hp.counter.trans hcounter.symm, fun j ↦ ?_, ?_⟩
    · rw [hreport]
      by_cases hji : j = i
      · subst hji
        rw [Function.update_self]
        exact ⟨result, h.done_kept.2 j result hdone, Function.update_self j _ t.stage⟩
      · rw [Function.update_of_ne hji]
        change VerifyTold q.run j (Function.update t.stage i _ j) _
        rw [Function.update_of_ne hji]
        exact hmono j _ _ (hp.stage j)
    · rw [hlog, ← hp.log]

/-! ## At the end of a job -/

theorem ItemStep.keeps {i : ℕ} {item : Str × Str} {e? : Option ArchiveEvent}
    (h : ItemStep archive sha256 named i item p e? q) :
    q.stage = p.stage ∧ q.run.phase = p.run.phase ∧ (q.emits item e?).dones = p.dones := by
  cases h with
  | uploads now bytesAmount phase uploading =>
      refine ⟨rfl, rfl, ?_⟩
      cases ((p.callback i).callback _ now bytesAmount).2 with
      | none => rfl
      | some sent => exact (ReportingJob.dones_emit _ _ _).trans (List.append_nil _)
  | copies => exact ⟨rfl, rfl, rfl⟩
  | countsCopy => exact ⟨rfl, rfl, rfl⟩
  | readsChunk => exact ⟨rfl, rfl, rfl⟩
  | verifies => exact ⟨rfl, rfl, rfl⟩
  | deletes => exact ⟨rfl, rfl, rfl⟩
  | countsItem => exact ⟨rfl, rfl, rfl⟩
  | ends => exact ⟨rfl, rfl, rfl⟩
  | _ => exact ⟨rfl, rfl, (ReportingJob.dones_emit _ _ _).trans (List.append_nil _)⟩

/-- What a job has told by the time that it verifies, and by its end. -/
structure ReportingJob.Settled (p : ReportingJob σ δ) (copies : Tally (Str × Bool × Bool))
    (items : Tally ArchiveResult) : Prop where
  preparing : p.stage = .preparing → p.run.phase = .admitted
  reporting : p.stage = .reporting → p.run.phase = .finished
  copied : p.run.phase = .verifying → copies.AllTold p.total
  finished : p.run.phase = .finished → p.stage ≠ .ended →
    copies.AllTold p.total ∧ items.AllTold p.total
  done : ∀ results ∈ p.dones, p.stage = .ended ∧ p.run.phase = .finished ∧
    (copies.AllTold p.total ∧ items.AllTold p.total) ∧ results.length = p.total ∧
    ∀ i result, results[i]? = some result → p.run.verify i = .done result

omit [DecidableEq σ] in
theorem ReportingJob.Settled.dones_eq {copies : Tally (Str × Bool × Bool)}
    {items : Tally ArchiveResult} (h : p.Settled copies items) (hstage : p.stage ≠ .ended) :
    p.dones = [] :=
  List.eq_nil_iff_forall_not_mem.mpr fun results hmem ↦ hstage (h.done results hmem).1

section Settled

variable {copies copies' : Tally (Str × Bool × Bool)} {items items' : Tally ArchiveResult}

omit [DecidableEq σ] in
/-- A job that has not told of its end. -/
theorem ReportingJob.Settled.of_dones_nil (hdones : p.dones = [])
    (hpreparing : p.stage = .preparing → p.run.phase = .admitted)
    (hreporting : p.stage = .reporting → p.run.phase = .finished)
    (hcopied : p.run.phase = .verifying → copies.AllTold p.total)
    (hfinished : p.run.phase = .finished → p.stage ≠ .ended →
      copies.AllTold p.total ∧ items.AllTold p.total) : p.Settled copies items :=
  ⟨hpreparing, hreporting, hcopied, hfinished,
    fun _ hmem ↦ absurd (hdones ▸ hmem) List.not_mem_nil⟩

omit [DecidableEq σ] in
/-- What a job tells in between is not its end. -/
theorem ReportingJob.Settled.dones_emit_eq_nil (hp : p.Settled copies items) {e : ArchiveEvent}
    (he : doneResults? e = none) (hopen : p.stage ≠ .ended) : (p.emit none e).dones = [] := by
  rw [dones_emit, he, hp.dones_eq hopen]
  rfl

omit [DecidableEq σ] in
theorem ReportingJob.Settled.run (hp : p.Settled copies items) (htotal : q.total = p.total)
    (hcopies : Relation.ReflTransGen (TallyStep p.total) copies copies')
    (hitems : Relation.ReflTransGen (TallyStep p.total) items items')
    (hverify : ∀ i result, p.run.verify i = .done result → q.run.verify i = .done result)
    (hstage : q.stage = p.stage) (hphase : q.run.phase = p.run.phase)
    (hdones : q.dones = p.dones) : q.Settled copies' items' := by
  refine ⟨?_, ?_, fun hverifying ↦ ?_, ?_, fun results hmem ↦ ?_⟩
  · rw [hstage, hphase]
    exact hp.preparing
  · rw [hstage, hphase]
    exact hp.reporting
  · rw [htotal]
    exact (hp.copied (hphase ▸ hverifying)).run hcopies
  · rw [hstage, hphase, htotal]
    intro hfinished hopen
    obtain ⟨hcopied, hverified⟩ := hp.finished hfinished hopen
    exact ⟨hcopied.run hcopies, hverified.run hitems⟩
  · rw [hdones] at hmem
    obtain ⟨hended, hfinished, ⟨hcopied, hverified⟩, hlength, hresults⟩ := hp.done results hmem
    rw [hstage, hphase, htotal]
    exact ⟨hended, hfinished, ⟨hcopied.run hcopies, hverified.run hitems⟩, hlength,
      fun i result hi ↦ hverify i result (hresults i result hi)⟩

omit [DecidableEq σ] in
theorem ReportingJob.Settled.prepare (hp : p.Settled copies items) (hstage : p.stage = .preparing) :
    ((p.emit none preparePhase).setStage .archiving).Settled copies' items' := by
  have hadmitted := hp.preparing hstage
  refine .of_dones_nil (hp.dones_emit_eq_nil rfl (hstage ▸ nofun)) nofun nofun ?_ ?_
  · exact fun hphase ↦ nomatch hadmitted.symm.trans hphase
  · exact fun hphase ↦ nomatch hadmitted.symm.trans hphase

omit [DecidableEq σ] in
theorem ReportingJob.Settled.begin (hp : p.Settled copies items) (hstage : p.stage = .archiving) :
    (p.setPhase .copying).Settled copies' items' := by
  refine .of_dones_nil (hp.dones_eq (hstage ▸ nofun)) ?_ ?_ nofun nofun
  · exact fun hpreparing ↦ nomatch hstage.symm.trans hpreparing
  · exact fun hreporting ↦ nomatch hstage.symm.trans hreporting

omit [DecidableEq σ] in
/-- While the workers are busy the job is in the midst of its work. -/
theorem ReportingJob.Settled.busy (hp : p.Settled copies items)
    (hbusy : p.run.phase = .copying ∨ p.run.phase = .verifying) :
    p.stage ≠ .preparing ∧ p.stage ≠ .reporting ∧ p.dones = [] := by
  have hphase : p.run.phase ≠ .admitted ∧ p.run.phase ≠ .finished := by
    rcases hbusy with hphase | hphase <;> rw [hphase] <;> exact ⟨nofun, nofun⟩
  refine ⟨fun hstage ↦ hphase.1 (hp.preparing hstage),
    fun hstage ↦ hphase.2 (hp.reporting hstage), ?_⟩
  exact List.eq_nil_iff_forall_not_mem.mpr fun results hmem ↦ hphase.2 (hp.done results hmem).2.1

omit [DecidableEq σ] in
theorem ReportingJob.Settled.verify (hp : p.Settled copies items)
    (hphase : p.run.phase = .copying)
    (hcopied : ∀ i < p.run.items.length,
      (∃ result, p.run.copy i = .done result) ∧ p.copyReport i = .told)
    (hq : (p.setPhase .verifying).TalliesCopies copies') :
    (p.setPhase .verifying).Settled copies' items' := by
  obtain ⟨hpreparing, hreporting, hdones⟩ := hp.busy (.inl hphase)
  refine .of_dones_nil hdones (fun hstage ↦ absurd hstage hpreparing)
    (fun hstage ↦ absurd hstage hreporting) (fun _ i hi ↦ ?_) nofun
  have htold := hq.stage i
  have hreport : (p.setPhase .verifying).copyReport i = .told := (hcopied i hi).2
  rw [hreport] at htold
  obtain ⟨_, _, _, _, _, hstage⟩ := htold
  rw [hstage]
  rfl

omit [DecidableEq σ] in
theorem ReportingJob.Settled.finish (hp : p.Settled copies items)
    (hphase : p.run.phase = .verifying)
    (hended : ∀ i < p.run.items.length, p.verifyReport i = .ended)
    (hcopies : Relation.ReflTransGen (TallyStep p.total) copies copies')
    (hq : (p.setPhase .finished).TalliesItems items') :
    (p.setPhase .finished).Settled copies' items' := by
  obtain ⟨hpreparing, hreporting, hdones⟩ := hp.busy (.inr hphase)
  refine .of_dones_nil hdones (fun hstage ↦ absurd hstage hpreparing) (fun _ ↦ rfl) nofun
    fun _ _ ↦ ⟨(hp.copied hphase).run hcopies, fun i hi ↦ ?_⟩
  have htold := hq.stage i
  have hreport : (p.setPhase .finished).verifyReport i = .ended := hended i hi
  rw [hreport] at htold
  obtain ⟨_, _, _, hstage⟩ := htold
  rw [hstage]
  rfl

omit [DecidableEq σ] in
theorem ReportingJob.Settled.report (hp : p.Settled copies items) (hstage : p.stage = .archiving)
    (hphase : p.run.phase = .finished)
    (hcopies : Relation.ReflTransGen (TallyStep p.total) copies copies')
    (hitems : Relation.ReflTransGen (TallyStep p.total) items items') :
    ((p.emit none reportPhase).setStage .reporting).Settled copies' items' := by
  obtain ⟨hcopied, hverified⟩ := hp.finished hphase (hstage ▸ nofun)
  refine .of_dones_nil (hp.dones_emit_eq_nil rfl (hstage ▸ nofun)) nofun (fun _ ↦ hphase) ?_ ?_
  · exact fun hverifying ↦ nomatch hphase.symm.trans hverifying
  · exact fun _ _ ↦ ⟨hcopied.run hcopies, hverified.run hitems⟩

omit [DecidableEq σ] in
theorem ReportingJob.Settled.tellDone (hp : p.Settled copies items)
    (hstage : p.stage = .reporting) {results : List ArchiveResult}
    (hlength : results.length = p.run.items.length)
    (hverified : ∀ i result, results[i]? = some result → p.run.verify i = .done result)
    (hcopies : Relation.ReflTransGen (TallyStep p.total) copies copies')
    (hitems : Relation.ReflTransGen (TallyStep p.total) items items') :
    ((p.emit none (doneEvent results)).setStage .ended).Settled copies' items' := by
  have hfinished := hp.reporting hstage
  obtain ⟨hcopied, hall⟩ := hp.finished hfinished (hstage ▸ nofun)
  refine ⟨nofun, nofun, fun hphase ↦ ?_, fun _ hopen ↦ absurd rfl hopen, fun results' hmem ↦ ?_⟩
  · exact nomatch hfinished.symm.trans hphase
  · have hdones : (p.emit none (doneEvent results)).dones = [results] := by
      rw [dones_emit, hp.dones_eq (hstage ▸ nofun)]
      rfl
    change results' ∈ (p.emit none (doneEvent results)).dones at hmem
    rw [hdones] at hmem
    obtain rfl := List.mem_singleton.mp hmem
    exact ⟨rfl, hfinished, ⟨hcopied.run hcopies, hall.run hitems⟩, hlength, hverified⟩

omit [DecidableEq σ] in
theorem ReportingJob.Settled.raise (hp : p.Settled copies items) (message : Str)
    (hstage : p.stage = .archiving ∨ p.stage = .reporting) :
    (((p.setPhase .finished).setStage .ended).setWork (.raised message)).Settled
      copies' items' := by
  have hopen : p.stage ≠ .ended := by
    rcases hstage with hstage | hstage <;> rw [hstage] <;> exact nofun
  exact .of_dones_nil (hp.dones_eq hopen) nofun nofun nofun fun _ hended ↦ absurd rfl hended

theorem ReportStep.settled (h : ReportStep archive sha256 named p q)
    (hp : p.Settled copies items)
    (hcopies : Relation.ReflTransGen (TallyStep p.total) copies copies')
    (hitems : Relation.ReflTransGen (TallyStep p.total) items items')
    (hq : q.TalliesCopies copies') (hq' : q.TalliesItems items') : q.Settled copies' items' := by
  have hkeep : q.stage = p.stage → q.run.phase = p.run.phase → q.dones = p.dones →
      q.Settled copies' items' :=
    hp.run (congrArg List.length h.items_eq) hcopies hitems h.done_kept.2
  have hsilent : ∀ e, doneResults? e = none → (p.emit none e).dones = p.dones := by
    intro e he
    rw [ReportingJob.dones_emit, he]
    exact List.append_nil _
  cases h with
  | others => exact hkeep rfl rfl rfl
  | @item q' i item e? working at_item step =>
      obtain ⟨hstage, hphase, hdones⟩ := step.keeps
      refine hkeep (Eq.trans ?_ hstage) (Eq.trans ?_ hphase) hdones
      · cases e? <;> rfl
      · cases e? <;> rfl
  | prepares working stage => exact hp.prepare stage
  | begins working stage phase accepted => exact hp.begin stage
  | verifies working phase copied => exact hp.verify phase copied hq
  | finishes working phase ended => exact hp.finish phase ended hcopies hq'
  | reports working stage phase => exact hp.report stage phase hcopies hitems
  | done working stage length verified => exact hp.tellDone stage length verified hcopies hitems
  | returns => exact hkeep rfl rfl rfl
  | raises message working stage copied verified => exact hp.raise message stage
  | archiveFailed => exact hkeep rfl rfl (hsilent _ rfl)
  | error => exact hkeep rfl rfl (hsilent _ rfl)
  | finish => exact hkeep rfl rfl rfl

end Settled

/-! ## The start of a job -/

variable {request : JobRequest} {uuid : Str} {source : σ} {bucketErrors : Str → Option Str}
  {objects : Objects σ}

omit [DecidableEq σ] in
theorem ReportingJob.start_settled :
    (ReportingJob.start request uuid source bucketErrors objects :
      ReportingJob σ δ).Settled .start .start := by
  refine ⟨fun _ ↦ rfl, nofun, nofun, nofun, fun results hmem ↦ ?_⟩
  exact nomatch hmem

/-- A reachable job with its tallies. -/
theorem ReportingJob.exists_tallies
    (hrun : Relation.ReflTransGen (ReportStep archive sha256 named)
      (.start request uuid source bucketErrors objects) p) :
    p.run.Attributed ∧ ∃ copies items,
      Relation.ReflTransGen (TallyStep p.total) .start copies ∧
      Relation.ReflTransGen (TallyStep p.total) .start items ∧
      p.TalliesCopies copies ∧ p.TalliesItems items ∧ p.Settled copies items := by
  induction hrun with
  | refl =>
      refine ⟨⟨fun _ _ _ _ hcopy ↦ (nomatch hcopy), fun _ _ hverify ↦ nomatch hverify⟩,
        .start, .start, .refl, .refl, ⟨rfl, fun _ ↦ rfl, rfl⟩, ⟨rfl, fun _ ↦ rfl, rfl⟩,
        start_settled⟩
  | @tail p q _ hstep ih =>
      obtain ⟨hattributed, copies, items, hcopies, hitems, hp, hp', hsettled⟩ := ih
      obtain ⟨copies', hcopies', hq⟩ := hstep.talliesCopies hp
      obtain ⟨items', hitems', hq'⟩ := hstep.talliesItems hp'
      have htotal : q.total = p.total := congrArg List.length hstep.items_eq
      refine ⟨hstep.attributed hattributed, copies', items', ?_, ?_, hq, hq',
        hstep.settled hsettled hcopies' hitems' hq hq'⟩
      · exact htotal ▸ hcopies.trans hcopies'
      · exact htotal ▸ hitems.trans hitems'

/-! ## The accounts -/

omit [DecidableEq σ] in
theorem VerifyTold.value {run : ArchiveRun σ δ} {i : ℕ} {stage : Stage ArchiveResult}
    {report : VerifyReport} (h : VerifyTold run i stage report) (htold : stage.told?.isSome)
    {result : ArchiveResult} (hdone : run.verify i = .done result) :
    stage.told?.map Prod.snd = some result := by
  have hvalue : ∀ n result', run.verify i = .done result' → stage = .told n result' →
      stage.told?.map Prod.snd = some result := by
    rintro n result' hdone' rfl
    obtain rfl := VerifyStatus.done.inj (hdone'.symm.trans hdone)
    rfl
  cases report with
  | counted n =>
      obtain ⟨_, _, rfl⟩ := h
      exact nomatch htold
  | itemDone n =>
      obtain ⟨result', hdone', hstage⟩ := h
      exact hvalue n result' hdone' hstage
  | ended =>
      obtain ⟨n, result', hdone', hstage⟩ := h
      exact hvalue n result' hdone' hstage
  | _ =>
      obtain rfl := h
      exact nomatch htold

omit [DecidableEq σ] in
theorem CopyTold.value {run : ArchiveRun σ δ} {i : ℕ} {stage : Stage (Str × Bool × Bool)}
    {report : CopyReport} (h : CopyTold run i stage report) (htold : stage.told?.isSome)
    (hrun : run.Attributed) {result : ArchiveResult} (hdone : run.verify i = .done result) :
    stage.told?.map Prod.snd = some (result.key, result.copySuccess, result.copySkipped) := by
  cases report with
  | told =>
      obtain ⟨n, item, copied, hitem, hcopy, rfl⟩ := h
      obtain ⟨copied', hcopy', _, hkey, hsuccess, hskipped⟩ := hrun.verified i result hdone
      obtain rfl := CopyStatus.done.inj (hcopy'.symm.trans hcopy)
      obtain rfl := hrun.copied i item copied' hitem hcopy
      rw [hkey, hsuccess, hskipped]
      rfl
  | _ =>
      obtain rfl := h
      exact nomatch htold

omit [DecidableEq σ] in
theorem ArchiveRun.Attributed.items_eq {run : ArchiveRun σ δ} (h : run.Attributed)
    {results : List ArchiveResult} (hlength : results.length = run.items.length)
    (hdone : ∀ i result, results[i]? = some result → run.verify i = .done result) :
    results.map (fun r ↦ (r.bucket, r.key)) = run.items := by
  apply List.ext_getElem (by simpa using hlength)
  intro i hi hi'
  have hitem := List.getElem?_eq_getElem hi'
  rw [List.length_map] at hi
  obtain ⟨copied, hcopy, hbucket, hkey, _⟩ :=
    h.verified i _ (hdone i _ (List.getElem?_eq_getElem hi))
  rw [List.getElem_map, hbucket, hkey]
  exact h.copied i _ copied hitem hcopy

theorem ReportingJob.tellsOnce
    (hrun : Relation.ReflTransGen (ReportStep archive sha256 named)
      (.start request uuid source bucketErrors objects) p) : p.TellsOnce := by
  obtain ⟨_, copies, items, hcopies, hitems, hp, hp', _⟩ := exists_tallies hrun
  obtain ⟨_, _, hcopyAccounts⟩ := accounts_of_reachable hcopies
  obtain ⟨_, _, hitemAccounts⟩ := accounts_of_reachable hitems
  constructor
  · rw [← hp'.log]
    refine ⟨hitemAccounts.log_nodup, fun n hn ↦ ?_⟩
    obtain ⟨hpos, hle⟩ := hitemAccounts.log_bound hn
    exact ⟨hpos, hle.trans hitemAccounts.counter_le⟩
  · rw [← hp.log]
    refine ⟨hcopyAccounts.log_nodup, fun n hn ↦ ?_⟩
    obtain ⟨hpos, hle⟩ := hcopyAccounts.log_bound hn
    exact ⟨hpos, hle.trans hcopyAccounts.counter_le⟩

theorem ReportingJob.accountsFor
    (hrun : Relation.ReflTransGen (ReportStep archive sha256 named)
      (.start request uuid source bucketErrors objects) p) {results : List ArchiveResult}
    (hmem : results ∈ p.dones) : p.AccountsFor results := by
  obtain ⟨hattributed, copies, items, hcopies, hitems, hp, hp', hsettled⟩ := exists_tallies hrun
  obtain ⟨_, _, ⟨hcopied, hverified⟩, hlength, hdone⟩ := hsettled.done results hmem
  have hbound : ∀ {i : ℕ} {result : ArchiveResult}, results[i]? = some result → i < p.total :=
    fun hi ↦ hlength ▸ (List.getElem?_eq_some_iff.mp hi).1
  obtain ⟨hitemNumbers, hitemResults⟩ :=
    told_perm_of_reachable hitems hverified hlength fun i result hi ↦
      (hp'.stage i).value (hverified i (hbound hi)) (hdone i result hi)
  have hcopyValues : ∀ i value,
      (results.map fun r ↦ (r.key, r.copySuccess, r.copySkipped))[i]? = some value →
      (copies.stage i).told?.map Prod.snd = some value := by
    intro i value hi
    rw [List.getElem?_map] at hi
    obtain ⟨result, hresult, rfl⟩ := Option.map_eq_some_iff.mp hi
    exact (hp.stage i).value (hcopied i (hbound hresult)) hattributed (hdone i result hresult)
  obtain ⟨hcopyNumbers, hcopyResults⟩ :=
    told_perm_of_reachable hcopies hcopied ((List.length_map _).trans hlength) hcopyValues
  rw [hp'.log] at hitemNumbers hitemResults
  rw [hp.log] at hcopyNumbers hcopyResults
  exact ⟨hattributed.items_eq hlength hdone, hitemNumbers, hitemResults, hcopyNumbers,
    hcopyResults⟩

/-- However the workers of an archive job interleave, each number is told at most once, and
a job that tells of its results has told the same of each item before. -/
theorem archiveJob_accounts
    (hrun : Relation.ReflTransGen (ReportStep archive sha256 named)
      (.start request uuid source bucketErrors objects) p) :
    p.TellsOnce ∧ ∀ results ∈ p.dones, p.AccountsFor results :=
  ⟨ReportingJob.tellsOnce hrun, fun _ hmem ↦ ReportingJob.accountsFor hrun hmem⟩

theorem ReportStep.silent {i : ℕ} {item : Str × Str} (working : p.state.phase = .working)
    (at_item : p.run.items[i]? = some item) (step : ItemStep archive sha256 named i item p none q) :
    ReportStep archive sha256 named p q :=
  .item working at_item step

theorem ReportStep.tells {i : ℕ} {item : Str × Str} {e : ArchiveEvent}
    (working : p.state.phase = .working) (at_item : p.run.items[i]? = some item)
    (step : ItemStep archive sha256 named i item p (some e) q) :
    ReportStep archive sha256 named p (q.emit (some item) e) :=
  .item working at_item step

end Simulation

/-! ## A job of two school files -/

def lostItem : Str × Str := ("school".toList, "lost".toList)

def schoolRequest : JobRequest := ⟨"do".toList, [schoolItem, lostItem], none⟩

def lostResult : ArchiveResult :=
  mergedResult (((ArchiveRun.start [schoolItem, lostItem] "do".toList fun _ ↦ none :
    ArchiveRun Str (List UInt8)).call "wasabi".toList).failed lostItem ['?'])

/-- The log of their job; of what is told of the first file on the way the last is left. -/
def schoolEvents : List (ℕ × ArchiveEvent) :=
  [(2, onCopyProgress 2 2 schoolItem.2 true false), (3, onCopyProgress 1 2 lostItem.2 false false),
    (7, progress "item_done".toList 1 2 lostItem lostResult 0 0 (some 1)),
    (10, progress "deleting".toList 0 2 schoolItem (mergedResult schoolCopied) 0 0 none),
    (11, progress "item_done".toList 0 2 schoolItem schoolDeleted 0 0 (some 2)),
    (12, onDeleteProgress 2 2 schoolItem.1 [⟨schoolItem.1, schoolItem.2, true, none⟩]),
    (13, reportPhase), (14, doneEvent [schoolDeleted, lostResult])]

/-- The head of the second file cannot be had.  Its copy is counted before that of the first
one and told after it, and its end is told while the first one is verified. -/
theorem exists_schoolJob_done :
    ∃ p : ReportingJob Str (List UInt8),
      Relation.ReflTransGen (ReportStep "wasabi".toList id fun _ _ ↦ [1])
        (.start schoolRequest "1".toList "do".toList (fun _ ↦ none) schoolSystem.objects) p ∧
      p.run.items = [schoolItem, lostItem] ∧ p.state.log.after 0 = schoolEvents ∧
      p.itemDones = [(1, lostResult), (2, schoolDeleted)] ∧
      p.dones = [[schoolDeleted, lostResult]] := by
  have hplain : ∀ item ∈ [schoolItem, lostItem], item.1 ≠ archiveBucketName := by decide
  have hupload : IsUpload schoolObject schoolObject := ⟨rfl, fun h ↦ absurd rfl h⟩
  have htwo : ∀ {P : ℕ → Prop}, P 0 → P 1 → ∀ i < 2, P i := by
    intro P hzero hone i hi
    rcases Nat.lt_succ_iff_lt_or_eq.mp hi with hlt | heq
    · exact Nat.lt_one_iff.mp hlt ▸ hzero
    · exact heq ▸ hone
  refine ⟨?p, ?run, ?requested, ?log, ?items, ?dones⟩
  case run =>
    refine .head (.prepares rfl rfl) ?_
    refine .head (.begins rfl rfl rfl hplain) ?_
    refine .head (.silent (i := 0) rfl rfl (.copies rfl (.notFound rfl rfl rfl))) ?_
    refine .head (.silent (i := 1) rfl rfl (.copies rfl (.headFails (e := ['?']) rfl rfl))) ?_
    refine .head (.silent (i := 0) rfl rfl (.copies rfl (.get rfl))) ?_
    refine .head (.silent (i := 1) rfl rfl (.countsCopy rfl rfl rfl)) ?_
    refine .head (.silent (i := 0) rfl rfl (.copies rfl (.upload hupload))) ?_
    refine .head (.silent (i := 0) rfl rfl (.countsCopy rfl rfl rfl)) ?_
    refine .head (.tells (i := 0) rfl rfl (.tellsCopy rfl rfl rfl)) ?_
    refine .head (.tells (i := 1) rfl rfl (.tellsCopy rfl rfl rfl)) ?_
    refine .head (.verifies rfl rfl (htwo ⟨⟨_, rfl⟩, rfl⟩ ⟨⟨_, rfl⟩, rfl⟩)) ?_
    refine .head (.tells (i := 0) rfl rfl (.checks rfl rfl rfl rfl rfl)) ?_
    refine .head (.silent (i := 0) rfl rfl (.verifies rfl rfl .headSource
      (.headSource rfl rfl))) ?_
    refine .head (.silent (i := 0) rfl rfl (.verifies rfl rfl .headArchive
      (.headArchive rfl rfl))) ?_
    refine .head (.tells (i := 0) rfl rfl (.beginsDigest rfl rfl rfl fun _ _ ↦ nofun)) ?_
    refine .head (.tells (i := 0) rfl rfl (.tellsChunk 0 1 rfl rfl rfl rfl (.inr rfl))) ?_
    refine .head (.silent (i := 0) rfl rfl (.verifies rfl rfl
      (@ToldBefore.readSource _ _ _ (digestOf id schoolObject.bytes) 0)
      (.readSource rfl rfl rfl))) ?_
    -- the second file comes to its end in between
    refine .head (.silent (i := 1) rfl rfl (.verifies rfl rfl (.notCopied rfl)
      (.notCopied rfl))) ?_
    refine .head (.silent (i := 1) rfl rfl (.countsItem rfl rfl (fun _ ↦ ⟨nofun, nofun⟩)
      nofun)) ?_
    refine .head (.tells (i := 1) rfl rfl (.tellsItem rfl rfl rfl)) ?_
    refine .head (.tells (i := 0) rfl rfl (.beginsDigest rfl rfl rfl fun _ _ ↦ ?_)) ?_
    · exact fun h ↦ absurd (VerifyReport.hashing.inj h).1 (by decide)
    refine .head (.tells (i := 0) rfl rfl (.tellsChunk 0 1 rfl rfl rfl rfl (.inr rfl))) ?_
    refine .head (.silent (i := 0) rfl rfl (.verifies rfl rfl
      (@ToldBefore.readArchive _ _ _ (digestOf id schoolObject.bytes) 0)
      (.readArchive rfl rfl rfl))) ?_
    refine .head (.silent (i := 0) rfl rfl (.verifies rfl rfl .headAgain
      (.headAgain rfl rfl))) ?_
    refine .head (.tells (i := 0) rfl rfl (.tellsDeleting rfl rfl rfl nofun)) ?_
    refine .head (.silent (i := 0) rfl rfl (.deletes rfl rfl rfl rfl .deleted)) ?_
    refine .head (.silent (i := 1) rfl rfl (.ends rfl rfl rfl rfl)) ?_
    refine .head (.silent (i := 0) rfl rfl (.countsItem rfl rfl (fun _ ↦ ⟨nofun, nofun⟩)
      nofun)) ?_
    refine .head (.tells (i := 0) rfl rfl (.tellsItem rfl rfl rfl)) ?_
    refine .head (.tells (i := 0) rfl rfl (.tellsDeletion rfl rfl rfl rfl)) ?_
    refine .head (.finishes rfl rfl (htwo rfl rfl)) ?_
    refine .head (.reports rfl rfl rfl) ?_
    refine .head (b := ReportingJob.setStage (ReportingJob.emit _ none
      (doneEvent [schoolDeleted, lostResult])) .ended) (.done rfl rfl rfl ?_) ?_
    · rintro (_ | _ | i) result hi
      · exact congrArg VerifyStatus.done (Option.some.inj hi)
      · exact congrArg VerifyStatus.done (Option.some.inj hi)
      · exact nomatch hi
    · exact .refl
  case requested => rfl
  case log => rfl
  case items => rfl
  case dones => rfl

theorem archiveJob_accounts_school :
    ∃ p : ReportingJob Str (List UInt8), p.itemDones = [(1, lostResult), (2, schoolDeleted)] ∧
      p.dones = [[schoolDeleted, lostResult]] ∧ p.TellsOnce ∧
      p.AccountsFor [schoolDeleted, lostResult] := by
  obtain ⟨p, hrun, _, _, hitems, hdone⟩ := exists_schoolJob_done
  obtain ⟨honce, haccounts⟩ := archiveJob_accounts hrun
  exact ⟨p, hitems, hdone, honce, haccounts _ (hdone ▸ List.mem_cons_self)⟩

end StorageReconciler
