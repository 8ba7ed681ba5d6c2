import Mathlib.Data.List.Perm.Subperm
import StorageReconciler.ArchiveAccounts
import StorageReconciler.CopiedContents

/-!
# A copy that is resumed

The page sends the items that it has not been told of, and follows the stream of the
copy.  A stream may break off at any event; its copy then goes on, and a later attempt
sends what is left, side by side with it.
-/

namespace StorageReconciler

open Strings Workers

variable {σ : Type*}

/-! ## Runs and the page -/

/-- A request to copy on the server: its workers, what they have told of their items, and
the results once it is done. -/
structure CopyRun where
  items : List CopyItem
  bucketErrors : Str → Option Str
  aclSupported : Str → Bool
  status : ℕ → CopyStatus
  log : List (ℕ × CopyResult)
  results : Option (List CopyResult)

namespace CopyRun

def start (items : List CopyItem) (bucketErrors : Str → Option Str) : CopyRun :=
  ⟨items, bucketErrors, fun _ ↦ true, fun _ ↦ .waiting, [], none⟩

variable (store : Str → σ) (body : CopyBody) (run : CopyRun)

/-- The options are those of the first request. -/
def call : CopyCall σ := copyCallOf store { body with items := run.items }

def team (objects : Objects σ) : Team (CopyState σ) CopyStatus :=
  ⟨⟨objects, run.aclSupported⟩, run.status⟩

def ofTeam (p : Team (CopyState σ) CopyStatus) : CopyRun :=
  { run with aclSupported := p.shared.aclSupported, status := p.status }

end CopyRun

/-- `copyState`, with the number of the run whose stream is open and how many of its
events have been handled. -/
structure CopyPage where
  remaining : List CopyItem
  stream : Option (ℕ × ℕ)
  succeededCount : ℕ
  skippedCount : ℕ
  failedCount : ℕ
  finished : Bool

namespace CopyPage

def start (items : List CopyItem) : CopyPage := ⟨items, none, 0, 0, 0, false⟩

variable (page : CopyPage)

/-- The first pending item with the key is through. -/
def handleProgress (r n : ℕ) (key : Str) : CopyPage :=
  { page with
    remaining := page.remaining.eraseP fun item ↦ decide (item.key = key)
    stream := some (r, n + 1) }

/-- The counts of `done` are those of the results of its run. -/
def handleDone (results : List CopyResult) : CopyPage :=
  { page with
    stream := none
    succeededCount := page.succeededCount + results.countP CopyResult.success
    skippedCount := page.skippedCount + results.countP CopyResult.skipped
    failedCount := page.failedCount + (results.length - results.countP CopyResult.success)
    finished := true }

end CopyPage

structure CopySystem (σ : Type*) where
  objects : Objects σ
  runs : List CopyRun
  page : CopyPage

def CopySystem.start (body : CopyBody) (objects : Objects σ) : CopySystem σ :=
  ⟨objects, [], .start body.items⟩

section Steps

variable [DecidableEq σ] (store : Str → σ) (body : CopyBody)

/-- A worker of a run takes a step or tells its result, a run is done, or the page begins
an attempt, handles an event or loses its stream. -/
inductive ResumeStep : CopySystem σ → CopySystem σ → Prop where
  | work {s : CopySystem σ} {r : ℕ} {run : CopyRun} {p : Team (CopyState σ) CopyStatus}
      (hrun : s.runs[r]? = some run)
      (hstep : Step (copyAction (run.call store body) run.bucketErrors) (run.team s.objects) p) :
      ResumeStep s { s with objects := p.shared.objects, runs := s.runs.set r (run.ofTeam p) }
  | tell {s : CopySystem σ} {r i : ℕ} {run : CopyRun} {result : CopyResult}
      (hrun : s.runs[r]? = some run) (hdone : run.status i = .done result)
      (hnew : i ∉ run.log.map Prod.fst) :
      ResumeStep s { s with runs := s.runs.set r { run with log := run.log ++ [(i, result)] } }
  | finish {s : CopySystem σ} {r : ℕ} {run : CopyRun} {results : List CopyResult}
      (hrun : s.runs[r]? = some run) (hnone : run.results = none)
      (hlength : results.length = run.items.length)
      (htold : ∀ i result, results[i]? = some result →
        run.status i = .done result ∧ i ∈ run.log.map Prod.fst) :
      ResumeStep s { s with runs := s.runs.set r { run with results := some results } }
  | attempt {s : CopySystem σ} (bucketErrors : Str → Option Str)
      (hidle : s.page.stream = none) (hleft : s.page.remaining ≠ [])
      (hopen : s.page.finished = false) :
      ResumeStep s
        { s with
          runs := s.runs ++ [.start s.page.remaining bucketErrors]
          page := { s.page with stream := some (s.runs.length, 0) } }
  | handle {s : CopySystem σ} {r n i : ℕ} {run : CopyRun} {result : CopyResult}
      (hstream : s.page.stream = some (r, n)) (hrun : s.runs[r]? = some run)
      (hnext : run.log[n]? = some (i, result)) :
      ResumeStep s { s with page := s.page.handleProgress r n result.key }
  | handleDone {s : CopySystem σ} {r n : ℕ} {run : CopyRun} {results : List CopyResult}
      (hstream : s.page.stream = some (r, n)) (hrun : s.runs[r]? = some run)
      (hall : n = run.log.length) (hresults : run.results = some results) :
      ResumeStep s { s with page := s.page.handleDone results }
  | lose {s : CopySystem σ} (hopen : s.page.stream ≠ none) :
      ResumeStep s { s with page := { s.page with stream := none } }

end Steps

/-! ## What a run tells -/

/-- Every number is told once, with the result of its worker, which is one of its item. -/
structure CopyRun.Sound (body : CopyBody) (run : CopyRun) : Prop where
  items : run.items.Sublist body.items
  once : (run.log.map Prod.fst).Nodup
  told : ∀ i result, (i, result) ∈ run.log → run.status i = .done result
  attributed : ∀ i result, run.status i = .done result →
    ∃ item, run.items[i]? = some item ∧ result.bucket = item.bucket ∧ result.key = item.key
  results : ∀ results, run.results = some results → results.length = run.items.length ∧
    ∀ i result, results[i]? = some result → (i, result) ∈ run.log

/-- The keys that a run has told. -/
def toldKeys (log : List (ℕ × CopyResult)) : List Str := log.map fun e ↦ e.2.key

theorem toldKeys_append (log log' : List (ℕ × CopyResult)) :
    toldKeys (log ++ log') = toldKeys log ++ toldKeys log' := List.map_append

variable {body : CopyBody} {run : CopyRun}

theorem CopyRun.sound_start {items : List CopyItem} (hitems : items.Sublist body.items)
    (bucketErrors : Str → Option Str) : (CopyRun.start items bucketErrors).Sound body :=
  ⟨hitems, .nil, fun _ _ h ↦ absurd h List.not_mem_nil, fun _ _ h ↦ (nomatch h),
    fun _ h ↦ absurd h.symm (Option.some_ne_none _)⟩

theorem CopyRun.Sound.tell {i : ℕ} {result : CopyResult} (h : run.Sound body)
    (hdone : run.status i = .done result) (hnew : i ∉ run.log.map Prod.fst) :
    CopyRun.Sound body { run with log := run.log ++ [(i, result)] } where
  items := h.items
  once := by
    rw [List.map_append, List.map_singleton, List.nodup_append_comm, List.singleton_append]
    exact List.nodup_cons.mpr ⟨hnew, h.once⟩
  told := by
    intro j result' hmem
    rcases List.mem_append.mp hmem with hmem | hmem
    · exact h.told j result' hmem
    · obtain ⟨rfl, rfl⟩ := Prod.mk.inj (List.mem_singleton.mp hmem)
      exact hdone
  attributed := h.attributed
  results := by
    intro results hresults
    obtain ⟨hlength, hall⟩ := h.results results hresults
    exact ⟨hlength, fun j result' hresult ↦ List.mem_append_left _ (hall j result' hresult)⟩

theorem CopyRun.Sound.finish {results : List CopyResult} (h : run.Sound body)
    (hlength : results.length = run.items.length)
    (htold : ∀ i result, results[i]? = some result →
      run.status i = .done result ∧ i ∈ run.log.map Prod.fst) :
    CopyRun.Sound body { run with results := some results } where
  items := h.items
  once := h.once
  told := h.told
  attributed := h.attributed
  results := by
    rintro _ hsome
    obtain rfl := Option.some.inj hsome
    refine ⟨hlength, fun i result hresult ↦ ?_⟩
    obtain ⟨hdone, hmem⟩ := htold i result hresult
    obtain ⟨⟨j, result'⟩, hlog, rfl⟩ := List.mem_map.mp hmem
    have hsame := (h.told j result' hlog).symm.trans hdone
    obtain rfl := CopyStatus.done.inj hsame
    exact hlog

theorem CopyRun.Sound.work [DecidableEq σ] {store : Str → σ} {objects : Objects σ}
    {p : Team (CopyState σ) CopyStatus} (h : run.Sound body)
    (hstep : Step (copyAction (run.call store body) run.bucketErrors) (run.team objects) p) :
    (run.ofTeam p).Sound body := by
  cases hstep with
  | @worker i s t hact =>
      obtain ⟨item, hitem, hcopy⟩ := hact
      have hold : ∀ j result, run.status j = .done result →
          Function.update run.status i t j = .done result := by
        intro j result hdone
        have hne : j ≠ i := by
          rintro rfl
          exact hcopy.not_done result hdone
        rw [Function.update_of_ne hne]
        exact hdone
      refine ⟨h.items, h.once, fun j result hmem ↦ hold j result (h.told j result hmem), ?_,
        h.results⟩
      intro j result hdone
      rcases update_eq_cases hdone with ⟨rfl, rfl⟩ | ⟨_, hdone⟩
      · have hmap : (run.items.map fun item ↦ (item.bucket, item.key))[j]? = some item := hitem
        rw [List.getElem?_map, Option.map_eq_some_iff] at hmap
        obtain ⟨item', hitem', rfl⟩ := hmap
        obtain ⟨hbucket, hkey⟩ := Prod.mk.inj hcopy.outcome_eq.1
        exact ⟨item', hitem', hbucket, hkey⟩
      · exact h.attributed j result hdone

/-- The keys told are keys of items, each told as often as there are such items at most. -/
theorem CopyRun.Sound.toldKeys_subperm (h : run.Sound body) :
    (toldKeys run.log).Subperm (run.items.map CopyItem.key) := by
  have hkeys : toldKeys run.log =
      (run.log.map Prod.fst).map fun i ↦ (run.items.map CopyItem.key).getD i [] := by
    rw [toldKeys, List.map_map]
    apply List.map_congr_left
    intro e he
    obtain ⟨item, hitem, _, hkey⟩ := h.attributed e.1 e.2 (h.told e.1 e.2 he)
    simp [hitem, hkey]
  have hsub : (run.log.map Prod.fst).Subperm (List.range run.items.length) := by
    apply List.subperm_of_subset h.once
    intro i hi
    obtain ⟨e, he, rfl⟩ := List.mem_map.mp hi
    obtain ⟨item, hitem, _⟩ := h.attributed e.1 e.2 (h.told e.1 e.2 he)
    exact List.mem_range.mpr (List.getElem?_eq_some_iff.mp hitem).1
  have hrange : (List.range run.items.length).map
      (fun i ↦ (run.items.map CopyItem.key).getD i []) = run.items.map CopyItem.key := by
    apply List.ext_getElem
    · simp
    · intro i hi hi'
      have hlt : i < run.items.length := by simpa using hi'
      simp [List.getElem?_eq_getElem hlt]
  obtain ⟨l, hperm, hl⟩ := hsub
  have hmap := hl.map fun i ↦ (run.items.map CopyItem.key).getD i []
  rw [hrange] at hmap
  rw [hkeys]
  exact ⟨_, hperm.map _, hmap⟩

/-! ## What the page knows -/

/-- The later state of a run: it has told more, and its results stay. -/
structure CopyRun.Extends (run run' : CopyRun) : Prop where
  items : run'.items = run.items
  log : ∃ more, run'.log = run.log ++ more
  results : ∀ results, run.results = some results → run'.results = some results

/-- The open stream is that of the last run, whose items are those of which it was told and
those that are left, key by key. -/
structure CopySystem.Follows (s : CopySystem σ) (r n : ℕ) (run : CopyRun) : Prop where
  last : r + 1 = s.runs.length
  current : s.runs[r]? = some run
  handled : n ≤ run.log.length
  keys : (run.items.map CopyItem.key).Perm
    (toldKeys (run.log.take n) ++ s.page.remaining.map CopyItem.key)

/-- Some run has told what came of the item. -/
def CopySystem.Told (s : CopySystem σ) (item : CopyItem) : Prop :=
  ∃ (r : ℕ) (run : CopyRun) (i : ℕ) (result : CopyResult), s.runs[r]? = some run ∧
    run.items[i]? = some item ∧ (i, result) ∈ run.log

/-- The counts are those of the results of the last run. -/
def CopySystem.Counts (s : CopySystem σ) : Prop :=
  ∃ (run : CopyRun) (results : List CopyResult), s.runs[s.runs.length - 1]? = some run ∧
    run.results = some results ∧ results.length = run.items.length ∧
    s.page.succeededCount = results.countP CopyResult.success ∧
    s.page.skippedCount = results.countP CopyResult.skipped ∧
    s.page.failedCount = results.length - results.countP CopyResult.success

structure CopySystem.Sound (body : CopyBody) (s : CopySystem σ) : Prop where
  runs : ∀ (r : ℕ) (run : CopyRun), s.runs[r]? = some run → run.Sound body
  remaining : s.page.remaining.Sublist body.items
  stream : ∀ (r n : ℕ), s.page.stream = some (r, n) →
    s.page.finished = false ∧ ∃ run, s.Follows r n run
  told : (body.items.map CopyItem.key).Nodup →
    ∀ item ∈ body.items, item ∈ s.page.remaining ∨ s.Told item
  unfinished : s.page.finished = false →
    s.page.succeededCount = 0 ∧ s.page.skippedCount = 0 ∧ s.page.failedCount = 0
  finished : s.page.finished = true → s.page.remaining = [] ∧ s.Counts

theorem CopySystem.sound_start (body : CopyBody) (objects : Objects σ) :
    (CopySystem.start body objects).Sound body where
  runs := fun _ _ h ↦ absurd h.symm (Option.some_ne_none _)
  remaining := .refl _
  stream := fun _ _ h ↦ absurd h.symm (Option.some_ne_none _)
  told := fun _ _ hitem ↦ .inl hitem
  unfinished := fun _ ↦ ⟨rfl, rfl, rfl⟩
  finished := fun h ↦ absurd h Bool.false_ne_true

section Page

variable {s : CopySystem σ} {r n : ℕ}

theorem getElem?_set_cases {run' run'' : CopyRun} {r' : ℕ} {runs : List CopyRun}
    (h : (runs.set r run')[r']? = some run'') : r' = r ∧ run'' = run' ∨ runs[r']? = some run'' := by
  rw [List.getElem?_set] at h
  split_ifs at h with hr hlt
  · exact .inl ⟨hr.symm, (Option.some.inj h).symm⟩
  · exact .inr h

theorem CopyRun.Extends.refl (run : CopyRun) : run.Extends run :=
  ⟨rfl, ⟨[], (List.append_nil _).symm⟩, fun _ h ↦ h⟩

theorem CopyRun.Extends.exists_set {run' run₀ : CopyRun} {runs : List CopyRun} {r' : ℕ}
    (hext : run.Extends run') (hrun : runs[r]? = some run) (hrun₀ : runs[r']? = some run₀) :
    ∃ run₁, (runs.set r run')[r']? = some run₁ ∧ run₀.Extends run₁ := by
  by_cases hr : r' = r
  · subst hr
    obtain rfl := Option.some.inj (hrun.symm.trans hrun₀)
    exact ⟨run', List.getElem?_set_self (List.getElem?_eq_some_iff.mp hrun).1, hext⟩
  · refine ⟨run₀, ?_, .refl run₀⟩
    rw [List.getElem?_set_ne (Ne.symm hr)]
    exact hrun₀

/-- A step of a run, seen by the page. -/
theorem CopySystem.Sound.extend {run' : CopyRun} {objects : Objects σ} (h : s.Sound body)
    (hrun : s.runs[r]? = some run) (hsound : run'.Sound body) (hext : run.Extends run') :
    CopySystem.Sound body { s with objects := objects, runs := s.runs.set r run' } := by
  refine ⟨?_, h.remaining, ?_, ?_, h.unfinished, ?_⟩
  · intro r' run'' hrun''
    rcases getElem?_set_cases hrun'' with ⟨_, rfl⟩ | hold
    · exact hsound
    · exact h.runs r' run'' hold
  · intro r' n hstream
    obtain ⟨hopen, run₀, hlast, hrun₀, hhandled, hkeys⟩ := h.stream r' n hstream
    obtain ⟨run₁, hrun₁, hitems₁, ⟨more₁, hlog₁⟩, _⟩ := hext.exists_set hrun hrun₀
    refine ⟨hopen, run₁, ?_, hrun₁, ?_, ?_⟩
    · rw [List.length_set]
      exact hlast
    · rw [hlog₁, List.length_append]
      exact hhandled.trans (Nat.le_add_right _ _)
    · rw [hitems₁, hlog₁, List.take_append_of_le_length hhandled]
      exact hkeys
  · intro hnodup item hitem
    rcases h.told hnodup item hitem with hleft | ⟨r', run₀, i, result, hrun₀, hi, hmem⟩
    · exact .inl hleft
    · obtain ⟨run₁, hrun₁, hitems₁, ⟨more₁, hlog₁⟩, _⟩ := hext.exists_set hrun hrun₀
      refine .inr ⟨r', run₁, i, result, hrun₁, hitems₁ ▸ hi, ?_⟩
      rw [hlog₁]
      exact List.mem_append_left _ hmem
  · intro hfinished
    obtain ⟨hnil, run₀, results, hrun₀, hresults₀, hlength, hcounts⟩ := h.finished hfinished
    obtain ⟨run₁, hrun₁, hitems₁, _, hresults₁⟩ := hext.exists_set hrun hrun₀
    refine ⟨hnil, run₁, results, ?_, hresults₁ results hresults₀, hitems₁ ▸ hlength, hcounts⟩
    rw [List.length_set]
    exact hrun₁

theorem CopySystem.Sound.attempt (h : s.Sound body) (hopen : s.page.finished = false)
    (bucketErrors : Str → Option Str) :
    CopySystem.Sound body
      { s with
        runs := s.runs ++ [.start s.page.remaining bucketErrors]
        page := { s.page with stream := some (s.runs.length, 0) } } := by
  have hnew : (s.runs ++ [CopyRun.start s.page.remaining bucketErrors])[s.runs.length]? =
      some (.start s.page.remaining bucketErrors) := List.getElem?_concat_length
  refine ⟨?_, h.remaining, ?_, ?_, h.unfinished, fun hfinished ↦ ?_⟩
  · intro r run hrun
    rcases List.mem_append.mp (List.mem_of_getElem? hrun) with hmem | hmem
    · obtain ⟨r', hr'⟩ := List.mem_iff_getElem?.mp hmem
      exact h.runs r' run hr'
    · obtain rfl := List.mem_singleton.mp hmem
      exact CopyRun.sound_start h.remaining bucketErrors
  · intro r n hstream
    obtain ⟨rfl, rfl⟩ := Prod.mk.inj (Option.some.inj hstream)
    exact ⟨hopen, _, by simp, hnew, Nat.zero_le _, .refl _⟩
  · intro hnodup item hitem
    rcases h.told hnodup item hitem with hleft | ⟨r, run, i, result, hrun, hi, hmem⟩
    · exact .inl hleft
    · refine .inr ⟨r, run, i, result, ?_, hi, hmem⟩
      exact List.getElem?_append_left (List.getElem?_eq_some_iff.mp hrun).1 ▸ hrun
  · exact absurd (hopen.symm.trans hfinished) Bool.false_ne_true

/-- The key that is told next belongs to an item that is left. -/
theorem CopySystem.Follows.mem_remaining (h : s.Follows r n run) (hrun : run.Sound body)
    {e : ℕ × CopyResult} (hnext : run.log[n]? = some e) :
    e.2.key ∈ s.page.remaining.map CopyItem.key := by
  have htake : run.log.take (n + 1) = run.log.take n ++ [e] := by
    rw [List.take_add_one, hnext]
    rfl
  have hsub : (toldKeys (run.log.take (n + 1))).Subperm (run.items.map CopyItem.key) :=
    ((List.take_sublist (n + 1) run.log).map _).subperm.trans hrun.toldKeys_subperm
  rw [htake, toldKeys_append] at hsub
  have hsub' := hsub.trans h.keys.subperm
  rw [List.subperm_append_left] at hsub'
  exact hsub'.subset List.mem_cons_self

theorem map_key_eraseP (items : List CopyItem) (key : Str) :
    (items.eraseP fun item ↦ decide (item.key = key)).map CopyItem.key =
      (items.map CopyItem.key).erase key := by
  have hsame : (fun item : CopyItem ↦ decide (item.key = key)) = (key == ·) ∘ CopyItem.key := by
    funext item
    rw [Function.comp_apply, Bool.eq_iff_iff, decide_eq_true_eq, beq_iff_eq, eq_comm]
  rw [List.erase_eq_eraseP, List.eraseP_map, hsame]

theorem CopySystem.Sound.handle {i : ℕ} {result : CopyResult} (h : s.Sound body)
    (hstream : s.page.stream = some (r, n)) (hrun : s.runs[r]? = some run)
    (hnext : run.log[n]? = some (i, result)) :
    CopySystem.Sound body { s with page := s.page.handleProgress r n result.key } := by
  obtain ⟨hopen, run₀, hfollows⟩ := h.stream r n hstream
  obtain rfl := Option.some.inj (hrun.symm.trans hfollows.current)
  have hsound := h.runs r run hrun
  have hmem := hfollows.mem_remaining hsound hnext
  have htake : run.log.take (n + 1) = run.log.take n ++ [(i, result)] := by
    rw [List.take_add_one, hnext]
    rfl
  refine ⟨h.runs, List.eraseP_sublist.trans h.remaining, ?_, ?_, h.unfinished, fun hfinished ↦ ?_⟩
  · intro r' n' hstream'
    obtain ⟨rfl, rfl⟩ := Prod.mk.inj (Option.some.inj hstream')
    refine ⟨hopen, run, hfollows.last, hrun, (List.getElem?_eq_some_iff.mp hnext).1, ?_⟩
    rw [htake, toldKeys_append, List.append_assoc]
    apply hfollows.keys.trans
    apply List.Perm.append_left
    change (s.page.remaining.map CopyItem.key).Perm (result.key :: ((s.page.remaining.eraseP
      fun item ↦ decide (item.key = result.key)).map CopyItem.key))
    rw [map_key_eraseP]
    exact List.perm_cons_erase hmem
  · intro hnodup item hitem
    rcases h.told hnodup item hitem with hleft | htold
    · by_cases hkey : item.key = result.key
      · have hlog : (i, result) ∈ run.log := List.mem_of_getElem? hnext
        obtain ⟨item', hitem', _, hkey'⟩ := hsound.attributed i result (hsound.told i result hlog)
        have hmem' := hsound.items.subset (List.mem_of_getElem? hitem')
        obtain rfl : item = item' :=
          List.inj_on_of_nodup_map hnodup hitem hmem' (hkey.trans hkey')
        exact .inr ⟨r, run, i, result, hrun, hitem', hlog⟩
      · left
        exact (List.mem_eraseP_of_neg (by simpa using hkey)).mpr hleft
    · exact .inr htold
  · exact absurd (hopen.symm.trans hfinished) Bool.false_ne_true

/-- When the page has handled the last event, nothing is left. -/
theorem CopySystem.Follows.remaining_eq_nil (h : s.Follows r n run) (hrun : run.Sound body)
    {results : List CopyResult} (hall : n = run.log.length)
    (hresults : run.results = some results) : s.page.remaining = [] := by
  obtain ⟨hlength, hlog⟩ := hrun.results results hresults
  have hlong : run.items.length ≤ run.log.length := by
    have hsub : (List.range results.length).Subperm (run.log.map Prod.fst) := by
      apply List.subperm_of_subset List.nodup_range
      intro i hi
      have hi' := List.mem_range.mp hi
      exact List.mem_map_of_mem (hlog i _ (List.getElem?_eq_getElem hi'))
    have hle := hsub.length_le
    rw [List.length_range, List.length_map] at hle
    exact hlength ▸ hle
  have hsum : run.items.length = run.log.length + s.page.remaining.length := by
    calc
      run.items.length = (run.items.map CopyItem.key).length := by rw [List.length_map]
      _ = (toldKeys (run.log.take n) ++ s.page.remaining.map CopyItem.key).length :=
        h.keys.length_eq
      _ = run.log.length + s.page.remaining.length := by
        rw [hall, List.take_length, List.length_append, List.length_map, toldKeys,
          List.length_map]
  exact List.eq_nil_of_length_eq_zero (by omega)

theorem CopySystem.Sound.handleDone {results : List CopyResult} (h : s.Sound body)
    (hstream : s.page.stream = some (r, n)) (hrun : s.runs[r]? = some run)
    (hall : n = run.log.length) (hresults : run.results = some results) :
    CopySystem.Sound body { s with page := s.page.handleDone results } := by
  obtain ⟨hopen, run₀, hfollows⟩ := h.stream r n hstream
  obtain rfl := Option.some.inj (hrun.symm.trans hfollows.current)
  have hsound := h.runs r run hrun
  obtain ⟨hsucceeded, hskipped, hfailed⟩ := h.unfinished hopen
  have hnil := hfollows.remaining_eq_nil hsound hall hresults
  refine ⟨h.runs, h.remaining, fun _ _ hnone ↦ absurd hnone.symm (Option.some_ne_none _), h.told,
    fun hfinished ↦ absurd hfinished.symm Bool.false_ne_true, fun _ ↦ ⟨hnil, run, results, ?_,
      hresults, (hsound.results results hresults).1, ?_, ?_, ?_⟩⟩
  · have hlast : s.runs.length - 1 = r := by
      have := hfollows.last
      omega
    rw [← hlast] at hrun
    exact hrun
  · change s.page.succeededCount + _ = _
    rw [hsucceeded, Nat.zero_add]
  · change s.page.skippedCount + _ = _
    rw [hskipped, Nat.zero_add]
  · change s.page.failedCount + _ = _
    rw [hfailed, Nat.zero_add]

theorem ResumeStep.sound [DecidableEq σ] {store : Str → σ} {s' : CopySystem σ}
    (hstep : ResumeStep store body s s') (h : s.Sound body) : s'.Sound body := by
  cases hstep with
  | work hrun hstep =>
      exact h.extend hrun ((h.runs _ _ hrun).work hstep)
        ⟨rfl, ⟨[], (List.append_nil _).symm⟩, fun _ hsome ↦ hsome⟩
  | tell hrun hdone hnew =>
      exact h.extend hrun ((h.runs _ _ hrun).tell hdone hnew) ⟨rfl, ⟨_, rfl⟩, fun _ h ↦ h⟩
  | finish hrun hnone hlength htold =>
      exact h.extend hrun ((h.runs _ _ hrun).finish hlength htold)
        ⟨rfl, ⟨[], (List.append_nil _).symm⟩,
          fun _ hsome ↦ absurd (hnone.symm.trans hsome) (Option.some_ne_none _).symm⟩
  | attempt bucketErrors hidle hleft hopen => exact h.attempt hopen bucketErrors
  | handle hstream hrun hnext => exact h.handle hstream hrun hnext
  | handleDone hstream hrun hall hresults => exact h.handleDone hstream hrun hall hresults
  | lose hopen =>
      exact ⟨h.runs, h.remaining, fun _ _ hnone ↦ absurd hnone.symm (Option.some_ne_none _),
        h.told, h.unfinished, h.finished⟩

end Page

/-! ## What the copies leave -/

section Deliver

variable [DecidableEq σ] {call : CopyCall σ} {bucketErrors : Str → Option Str}
  {before : Objects σ} {source dest : Location σ}

/-- What is at the destination is not taken away by a worker. -/
theorem copyAction_mono {p p' : Team (CopyState σ) CopyStatus}
    (hself : ∀ item ∈ call.items, call.destOf item = source → call.destOf item = dest)
    (hstep : Step (copyAction call bucketErrors) p p')
    (h : Workers.Holds (CopyInvariant call before source dest)
      (CopyAssertion call before source dest) p) :
    (p.shared.objects dest ≠ none → p'.shared.objects dest ≠ none) ∧
      (Delivered before source dest p.shared.objects →
        Delivered before source dest p'.shared.objects) := by
  obtain ⟨hinv, hassert⟩ := h
  cases hstep with
  | @worker i s t hact =>
      obtain ⟨item, hitem, hcopy⟩ := hact
      by_cases hdest : call.destOf item = dest
      · rcases (hassert i item hitem hdest).objects_cases hdest hcopy with
          hsame | ⟨obj, hput, _, o, ho, hbytes⟩
        · exact ⟨hsame ▸ id, hsame ▸ id⟩
        · refine ⟨fun _ ↦ ?_, fun _ ↦ ?_⟩
          · rw [hput, Function.update_self]
            exact Option.some_ne_none obj
          · rw [hput]
            exact .update ho hbytes
      · have hsource := mt (hself item (List.mem_of_getElem? hitem)) hdest
        have hsame := (hinv.other hsource hdest hcopy).2
        exact ⟨hsame ▸ id, by unfold Delivered; exact hsame ▸ id⟩

omit [DecidableEq σ] in
theorem CopyProgress.survives {item : Str × Str} {s : CopyState σ} {result : CopyResult}
    (hinv : CopyInvariant call before (call.sourceOf item) (call.destOf item) s)
    (h : CopyProgress call before (call.sourceOf item) (call.destOf item) item s (.done result))
    (hsuccess : result.success = true) : call.Survives before s.objects item result := by
  have hdelivered : Delivered before (call.sourceOf item) (call.destOf item) s.objects →
      ∃ obj, s.objects (call.destOf item) = some obj ∧
        ∃ source, s.objects (call.sourceOf item) = some source ∧ obj.bytes = source.bytes := by
    rintro ⟨o, obj, ho, hobj, hbytes⟩
    have hreadable := hinv.readable
    rw [ho, Option.map_some, Option.map_eq_some_iff] at hreadable
    obtain ⟨source, hsource, hsame⟩ := hreadable
    exact ⟨obj, hobj, source, hsource, hbytes.trans hsame.symm⟩
  rcases h with ⟨rfl, hput⟩ | ⟨rfl, _, hthere⟩ | ⟨e, rfl⟩
  · obtain ⟨obj, hobj, hsource⟩ := hdelivered hput
    exact ⟨obj, hobj, .inr hsource⟩
  · obtain ⟨obj, hobj⟩ := Option.ne_none_iff_exists'.mp hthere
    rcases hinv.filled with hsame | hput
    · exact ⟨obj, hobj, .inl ⟨rfl, hsame.symm.trans hobj⟩⟩
    · obtain ⟨obj', hobj', hsource⟩ := hdelivered hput
      exact ⟨obj', hobj', .inr hsource⟩
  · exact absurd hsuccess Bool.false_ne_true

variable {store : Str → σ} {item : Str × Str} {s s' : CopySystem σ}

/-- What the workers of all runs know of the destination of an item. -/
structure CopySystem.Delivers (store : Str → σ) (body : CopyBody) (before : Objects σ)
    (item : Str × Str) (s : CopySystem σ) : Prop where
  shared : CopyInvariant (copyCallOf store body) before ((copyCallOf store body).sourceOf item)
    ((copyCallOf store body).destOf item) ⟨s.objects, fun _ ↦ true⟩
  workers : ∀ (r : ℕ) (run : CopyRun), s.runs[r]? = some run → ∀ i,
    CopyAssertion (run.call store body) before ((copyCallOf store body).sourceOf item)
      ((copyCallOf store body).destOf item) i ⟨s.objects, run.aclSupported⟩ (run.status i)

omit [DecidableEq σ] in
theorem CopySystem.Delivers.holds (h : s.Delivers store body before item) {r : ℕ} {run : CopyRun}
    (hrun : s.runs[r]? = some run) :
    Workers.Holds (CopyInvariant (run.call store body) before
        ((copyCallOf store body).sourceOf item) ((copyCallOf store body).destOf item))
      (CopyAssertion (run.call store body) before ((copyCallOf store body).sourceOf item)
        ((copyCallOf store body).destOf item)) (run.team s.objects) :=
  ⟨⟨h.shared.readable, h.shared.filled, h.shared.kept⟩, h.workers r run hrun⟩

omit [DecidableEq σ] in
/-- A run copies some of the items of the first request, to where that would have copied them. -/
theorem CopyRun.call_apart (halone : (copyCallOf store body).Alone item) (hrun : run.Sound body) :
    (∀ item' ∈ (run.call store body).items,
      (run.call store body).destOf item' = (copyCallOf store body).sourceOf item →
        (run.call store body).destOf item' = (copyCallOf store body).destOf item) ∧
    ∀ item' ∈ (run.call store body).items,
      (run.call store body).destOf item' = (copyCallOf store body).destOf item →
        (run.call store body).sourceOf item' = (copyCallOf store body).sourceOf item :=
  ⟨fun _ _ hself ↦ copyCallOf_destOf_eq hself,
    fun item' hitem' hdest ↦ halone item' ((hrun.items.map _).subset hitem') hdest⟩

theorem ResumeStep.delivers (halone : (copyCallOf store body).Alone item)
    (hstep : ResumeStep store body s s') (hsound : s.Sound body)
    (h : s.Delivers store body before item) : s'.Delivers store body before item := by
  cases hstep with
  | @work r run p hrun hstep =>
      obtain ⟨hself, hone⟩ := CopyRun.call_apart halone (hsound.runs r run hrun)
      have hholds := h.holds hrun
      obtain ⟨hinv, hassert⟩ := (copyStable hself hone).step hholds hstep
      obtain ⟨hthere, hdelivered⟩ := copyAction_mono hself hstep hholds
      refine ⟨⟨hinv.readable, hinv.filled, hinv.kept⟩, fun r' run' hrun' i ↦ ?_⟩
      rcases getElem?_set_cases hrun' with ⟨_, rfl⟩ | hold
      · exact hassert i
      · exact fun item' hitem' hdest ↦
          (h.workers r' run' hold i item' hitem' hdest).mono hthere hdelivered
  | @tell r i run result hrun hdone hnew =>
      refine ⟨h.shared, fun r' run' hrun' ↦ ?_⟩
      rcases getElem?_set_cases hrun' with ⟨_, rfl⟩ | hold
      · exact h.workers r run hrun
      · exact h.workers r' run' hold
  | @finish r run results hrun hnone hlength htold =>
      refine ⟨h.shared, fun r' run' hrun' ↦ ?_⟩
      rcases getElem?_set_cases hrun' with ⟨_, rfl⟩ | hold
      · exact h.workers r run hrun
      · exact h.workers r' run' hold
  | attempt bucketErrors' hidle hleft hopen =>
      refine ⟨h.shared, fun r' run' hrun' i ↦ ?_⟩
      rcases List.mem_append.mp (List.mem_of_getElem? hrun') with hmem | hmem
      · obtain ⟨r, hr⟩ := List.mem_iff_getElem?.mp hmem
        exact h.workers r run' hr i
      · obtain rfl := List.mem_singleton.mp hmem
        exact fun _ _ _ ↦ trivial
  | handle hstream hrun hnext => exact ⟨h.shared, h.workers⟩
  | handleDone hstream hrun hall hresults => exact ⟨h.shared, h.workers⟩
  | lose hopen => exact ⟨h.shared, h.workers⟩

omit [DecidableEq σ] in
theorem CopySystem.delivers_start (before : Objects σ) (item : Str × Str) :
    (CopySystem.start body before).Delivers store body before item :=
  ⟨⟨rfl, .inl rfl, fun _ _ ↦ rfl⟩, fun _ _ h ↦ absurd h.symm (Option.some_ne_none _)⟩

theorem CopySystem.reachable (hrun : Relation.ReflTransGen (ResumeStep store body)
    (.start body before) s) :
    s.Sound body ∧ ∀ item, (copyCallOf store body).Alone item →
      s.Delivers store body before item := by
  induction hrun with
  | refl => exact ⟨sound_start body before, fun item _ ↦ delivers_start before item⟩
  | tail _ hstep ih =>
      exact ⟨hstep.sound ih.1, fun item halone ↦ hstep.delivers halone ih.1 (ih.2 item halone)⟩

/-- However often the stream breaks off and the page begins again: with keys that do not
repeat, every item is left or has been told of; what was told to be copied is at its
destination; and a page that has finished has nothing left, and counts the results of its
last run. -/
theorem copyPage_resumes (hrun : Relation.ReflTransGen (ResumeStep store body)
    (.start body before) s) :
    ((body.items.map CopyItem.key).Nodup →
      ∀ item ∈ body.items, item ∈ s.page.remaining ∨ s.Told item) ∧
    (∀ (r : ℕ) (run : CopyRun) (i : ℕ) (result : CopyResult) (item : CopyItem),
      s.runs[r]? = some run → (i, result) ∈ run.log → run.items[i]? = some item →
      result.success = true → (copyCallOf store body).Alone (item.bucket, item.key) →
        (copyCallOf store body).Survives before s.objects (item.bucket, item.key) result) ∧
    (s.page.finished = true → s.page.remaining = [] ∧ s.Counts) := by
  obtain ⟨hsound, hdelivers⟩ := CopySystem.reachable hrun
  refine ⟨hsound.told, fun r run i result item hr hlog hitem hsuccess halone ↦ ?_,
    hsound.finished⟩
  have hdone := (hsound.runs r run hr).told i result hlog
  have hdelivered := hdelivers _ halone
  have hcall : (run.call store body).items[i]? = some (item.bucket, item.key) := by
    simp [CopyRun.call, copyCallOf, hitem]
  have hprogress := hdelivered.workers r run hr i (item.bucket, item.key) hcall rfl
  rw [hdone] at hprogress
  exact CopyProgress.survives (s := ⟨s.objects, run.aclSupported⟩)
    ⟨hdelivered.shared.readable, hdelivered.shared.filled, hdelivered.shared.kept⟩ hprogress
    hsuccess

/-- The steps of the workers of one run. -/
theorem resume_work {objects : Objects σ} {runs : List CopyRun} {page : CopyPage} {r : ℕ}
    {run : CopyRun} (hr : runs[r]? = some run) {p : Team (CopyState σ) CopyStatus}
    (hrun : Relation.ReflTransGen (Step (copyAction (run.call store body) run.bucketErrors))
      (run.team objects) p) :
    Relation.ReflTransGen (ResumeStep store body) ⟨objects, runs, page⟩
      ⟨p.shared.objects, runs.set r (run.ofTeam p), page⟩ := by
  induction hrun with
  | refl =>
      have hsame : runs.set r run = runs := by
        apply List.ext_getElem?
        intro j
        rw [List.getElem?_set]
        split_ifs with hj hlt
        · exact hj ▸ hr.symm
        · exact absurd (List.getElem?_eq_some_iff.mp hr).1 hlt
        · rfl
      have hstill : Relation.ReflTransGen (ResumeStep store body) ⟨objects, runs, page⟩
          ⟨objects, runs.set r run, page⟩ := by
        rw [hsame]
      exact hstill
  | @tail p q _ hstep ih =>
      have hset : (runs.set r (run.ofTeam p))[r]? = some (run.ofTeam p) :=
        List.getElem?_set_self (List.getElem?_eq_some_iff.mp hr).1
      have hnext : ResumeStep store body ⟨p.shared.objects, runs.set r (run.ofTeam p), page⟩
          ⟨q.shared.objects, (runs.set r (run.ofTeam p)).set r ((run.ofTeam p).ofTeam q), page⟩ :=
        .work hset hstep
      rw [List.set_set] at hnext
      exact ih.tail hnext

end Deliver

/-- The first attempt of the page breaks off at once, and the second one is followed to
its end. -/
theorem exists_photo_finished : ∃ s, Relation.ReflTransGen (ResumeStep id photoBody)
    (.start photoBody (photoObjects none)) s ∧ s.page.finished = true := by
  have hleft : photoBody.items ≠ [] := List.cons_ne_nil _ _
  let run : CopyRun := .start photoBody.items fun _ ↦ none
  have hlost : ResumeStep id photoBody (.start photoBody (photoObjects none)) _ :=
    .attempt (fun _ ↦ none) rfl hleft rfl
  have hagain := (Relation.ReflTransGen.single hlost).tail (.lose (Option.some_ne_none _))
  have hsecond := hagain.tail (.attempt (fun _ ↦ none) rfl hleft rfl)
  have hhead : CopyAlone photoCall (fun _ ↦ none) photoItem
      (⟨photoObjects none, fun _ ↦ true⟩, .waiting)
      (⟨photoObjects none, fun _ ↦ true⟩, .transfer) :=
    .notFound rfl rfl rfl
  have hget : CopyAlone photoCall (fun _ ↦ none) photoItem
      (⟨photoObjects none, fun _ ↦ true⟩, .transfer)
      (⟨photoObjects none, fun _ ↦ true⟩, .fetched (photoObject [1]) true) := .get rfl
  have hupload : CopyAlone photoCall (fun _ ↦ none) photoItem
      (⟨photoObjects none, fun _ ↦ true⟩, .fetched (photoObject [1]) true)
      ((CopyState.mk (photoObjects none) fun _ ↦ true).put (photoLocation "wasabi".toList)
        (photoObject [1]), .done (photoResult false)) :=
    .upload ⟨rfl, fun h ↦ absurd rfl h⟩
  have hitem : photoCall.items[0]? = some photoItem := rfl
  have hcopied := reaches_of_alone hitem (.head hhead (.head hget (.single hupload)))
  have hrun : [run, run][1]? = some run := rfl
  have hworked := hsecond.trans (resume_work hrun hcopied)
  have htold := hworked.tail (.tell (r := 1) (i := 0) rfl rfl List.not_mem_nil)
  have hresults : ∀ (i : ℕ) (result : CopyResult), [photoResult false][i]? = some result →
      Function.update run.status 0 (.done (photoResult false)) i = .done result ∧
        i ∈ [(0, photoResult false)].map Prod.fst := by
    intro i result hresult
    cases i with
    | zero => exact ⟨congrArg _ (Option.some.inj hresult), List.mem_cons_self⟩
    | succ i => exact absurd hresult.symm (Option.some_ne_none _)
  have hdone := htold.tail (.finish (r := 1) rfl rfl rfl hresults)
  exact ⟨_, (hdone.tail (.handle rfl rfl rfl)).tail (.handleDone rfl rfl rfl rfl), rfl⟩

theorem copyPage_resumes_photo : ∃ s : CopySystem Str, s.page.finished = true ∧
    ((photoBody.items.map CopyItem.key).Nodup →
      ∀ item ∈ photoBody.items, item ∈ s.page.remaining ∨ s.Told item) ∧
    (∀ (r : ℕ) (run : CopyRun) (i : ℕ) (result : CopyResult) (item : CopyItem),
      s.runs[r]? = some run → (i, result) ∈ run.log → run.items[i]? = some item →
      result.success = true → (copyCallOf id photoBody).Alone (item.bucket, item.key) →
        (copyCallOf id photoBody).Survives (photoObjects none) s.objects (item.bucket, item.key)
          result) ∧
    (s.page.finished = true → s.page.remaining = [] ∧ s.Counts) := by
  obtain ⟨s, hrun, hfinished⟩ := exists_photo_finished
  exact ⟨s, hfinished, copyPage_resumes hrun⟩

end StorageReconciler
