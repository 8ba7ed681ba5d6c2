import StorageReconciler.Resumption

/-!
# Orphans of a changing database

Other programs change database and storage at any time.  What a run knows of a
mapping is what one fetch of it read, its own fetch or that of an earlier run which
left a checkpoint behind.  A row that held its value while that fetch went on keeps
the object it names out of the orphans.
-/

namespace StorageReconciler

open Strings KeysetPaging ResumablePool

variable {ν : Type}

/-! ## Rows that stay as they are -/

/-- The row at a place has a value in the column of the mapping, and no other row
with a value there has its id. -/
def Database.Holds (text : ν → Str) (db : Database ν) (m : TableColumnMapping)
    (column idColumn : Str) (place : ℕ) (id : Option ν) (value : Str) : Prop :=
  ∃ t row, db.table? m.table = some t ∧ t.column? m.column = some column ∧
    t.column? (idColumnOf m) = some idColumn ∧ row ∈ t.rows ∧ row.place = place ∧
    row.cell idColumn = id ∧ (row.cell column).map text = some value ∧
    ∀ row' ∈ t.nonEmptyRows text column, row'.cell idColumn = id → row'.place = place

section Holds

variable {text : ν → Str} {database : Option Str} {m : TableColumnMapping}
  {column idColumn value : Str} {place : ℕ} {id : Option ν}

theorem resolveColumns_of_resolveMapping {db : Database ν} {columns : Str × Str}
    (h : resolveMapping db database m = .ok columns) : resolveColumns db m = .ok columns := by
  rw [resolveMapping] at h
  cases hcheck : checkNames database m with
  | error e =>
      rw [hcheck] at h
      cases h
  | ok u =>
      rw [hcheck] at h
      exact h

theorem Database.Holds.resolveColumns {db : Database ν}
    (h : db.Holds text m column idColumn place id value) :
    resolveColumns db m = .ok (column, idColumn) := by
  obtain ⟨t, _, ht, hcolumn, hid, _⟩ := h
  unfold StorageReconciler.resolveColumns
  simp only [ht, hcolumn, hid]

theorem Database.Holds.nonEmptyRowsOf {db : Database ν}
    (h : db.Holds text m column idColumn place id value) (hvalue : value ≠ []) :
    (∃ row ∈ nonEmptyRowsOf text db m.table column, rowId idColumn row = id) ∧
      ∀ row ∈ StorageReconciler.nonEmptyRowsOf text db m.table column, rowId idColumn row = id →
        (row.cell column).map text = some value := by
  obtain ⟨t, row, ht, _, _, hrow, hplace, hid, hcell, honly⟩ := h
  have hrows : StorageReconciler.nonEmptyRowsOf text db m.table column =
      t.nonEmptyRows text column := by
    simp [StorageReconciler.nonEmptyRowsOf, ht]
  rw [hrows]
  constructor
  · refine ⟨row, List.mem_filter.mpr ⟨hrow, ?_⟩, hid⟩
    obtain ⟨v, hv, hv'⟩ := Option.map_eq_some_iff.mp hcell
    simp [hasValue, hv, hv', hvalue]
  · intro row' hrow' hid'
    have hsame : row' = row := by
      apply List.inj_on_of_nodup_map t.rows_nodup (List.mem_of_mem_filter hrow') hrow
      rw [honly row' hrow' hid', hplace]
    rw [hsame, hcell]

theorem IsRead.exists_of_holds [LinearOrder ν] {snapshots : ℕ → Database ν}
    {order : TieOrders ν} {batch : ℕ}
    {refs : List (DbFileReference ν)} (h : IsRead text snapshots order database m batch refs)
    (hbatch : 0 < batch)
    (hholds : ∀ i, (snapshots i).Holds text m column idColumn place id value)
    (hvalue : value ≠ []) : ∃ ref ∈ refs, ref.value = value := by
  obtain ⟨column', idColumn', fuel, hresolve, hends, hfetch⟩ := h
  have hcolumns := (hholds 0).resolveColumns.symm.trans (resolveColumns_of_resolveMapping hresolve)
  obtain ⟨rfl, rfl⟩ := Prod.mk.inj (Except.ok.inj hcolumns)
  obtain ⟨i, row, hrow, hid, hread⟩ := exists_mem_fetchRows_of_stable hbatch
    (fun i ↦ ((hholds i).nonEmptyRowsOf hvalue).1) hends (.inl rfl)
  have hcell := ((hholds i).nonEmptyRowsOf hvalue).2 row hrow hid
  rw [fetchFileReferences_of_resolve hresolve] at hfetch
  obtain rfl := Except.ok.inj hfetch
  refine ⟨_, List.mem_map_of_mem hread, ?_⟩
  simp [referenceOf, hcell]

end Holds

/-! ## Runs in time -/

/-- What the database servers hold at each time. -/
structure Timeline (ν : Type) where
  server : ℕ → Option Str → Database ν
  text : ν → Str

/-- A run, the buckets it scans, and when it starts and finishes. -/
structure TimedRun where
  input : RunInput
  buckets : List Str
  start : ℕ
  finish : ℕ

namespace Timeline

variable [LinearOrder ν] (timeline : Timeline ν)

/-- What a fetch between two times yields, whenever it makes its queries. -/
def ReadBetween (s e : ℕ) (database : Option Str) (m : TableColumnMapping) (batch : ℕ)
    (refs : List (DbFileReference ν)) : Prop :=
  ∃ (times : ℕ → ℕ) (order : TieOrders ν), Monotone times ∧ (∀ i, s ≤ times i ∧ times i ≤ e) ∧
    IsRead timeline.text (fun i ↦ timeline.server (times i) database) order database m batch refs

/-- The fetches that succeed do so during the run; any fetch may fail. -/
structure Fetched (T : Tables) (env : Env) (run : TimedRun) (outcomes : ItemOutcomes ν) :
    Prop where
  scanned : ∀ buckets, run.input.request.buckets = some buckets → run.buckets = buckets
  mappings : List.Forall₂ (fun m r ↦ ∀ refs, r = .ok refs → ∃ s e, run.start ≤ s ∧ e ≤ run.finish ∧
    timeline.ReadBetween s e run.input.request.database m batchSize refs)
    run.input.request.mappings outcomes.mappings
  buckets : List.Forall₂ (fun b r ↦ ∀ objs, r = .ok objs → ∀ obj ∈ objs, obj.bucket = b)
    run.buckets outcomes.buckets
  content : List.Forall₂ (fun m r ↦ ∀ keys, r = .ok keys → ∃ s e refs, run.start ≤ s ∧
    e ≤ run.finish ∧
    timeline.ReadBetween s e run.input.request.database m contentBatchSize refs ∧
    keys = collectContentKeys T env run.buckets.toFinset refs) run.input.content outcomes.content

/-- Runs one after another, and the checkpoints they leave. -/
inductive History {ι : Type*} [DecidableEq ι] (digest : CheckpointKey → ι) (T : Tables)
    (env : Env) : List TimedRun → Checkpoints ι ν → Prop where
  | nil : History digest T env [] .empty
  | run {past : List TimedRun} {before after : Checkpoints ι ν} {run : TimedRun}
      {outcomes results : ItemOutcomes ν} (earlier : History digest T env past before)
      (waits : ∀ r ∈ past, r.finish ≤ run.start)
      (fetched : timeline.Fetched T env run outcomes)
      (runs : RunsTo digest run.input run.buckets outcomes before after results) :
      History digest T env (run :: past) after

/-- A fetch of one of the runs for a mapping whose file has the name. -/
def ReadByRun {ι : Type*} (digest : CheckpointKey → ι) (runs : List TimedRun) (f : ι × Str)
    (refs : List (DbFileReference ν)) : Prop :=
  ∃ run ∈ runs, ∃ m ∈ run.input.request.mappings,
    checkpointIdFor digest run.input.request = f.1 ∧ safeName (mappingKey m) = f.2 ∧
    ∃ s e, run.start ≤ s ∧ e ≤ run.finish ∧
      timeline.ReadBetween s e run.input.request.database m batchSize refs

/-- The runs whose fetch the data of a mapping may come from: the run itself and,
where there was a checkpoint of the mapping, the earlier runs with its id. -/
def IsSource {ι : Type*} (digest : CheckpointKey → ι) (past : List TimedRun)
    (before : Checkpoints ι ν) (run : TimedRun) (m : TableColumnMapping) (source : TimedRun) :
    Prop :=
  source = run ∨ source ∈ past ∧
    checkpointIdFor digest source.input.request = checkpointIdFor digest run.input.request ∧
    before.mapping (checkpointIdFor digest run.input.request, safeName (mappingKey m)) ≠ none

/-- No orphan is named, in scope, by a row that holds its value from `s` to `e`. -/
def KeepsReferenced (T : Tables) (env : Env) (run : TimedRun) (results : ItemOutcomes ν)
    (m : TableColumnMapping) (s e : ℕ) : Prop :=
  ∀ (column idColumn : Str) (place : ℕ) (ref : DbFileReference ν), ref.value ≠ [] →
    (∀ t, s ≤ t → t ≤ e → (timeline.server t run.input.request.database).Holds timeline.text m
      column idColumn place ref.id ref.value) →
    inScope T env (effectiveProvider env run.input.request) run.buckets ref = true →
    ∀ o ∈ (runResult T env run.input run.buckets results).orphan, o.path ≠ keyOf T env ref

section Runs

variable {timeline} {ι : Type*} {digest : CheckpointKey → ι} {T : Tables} {env : Env}
  {past : List TimedRun} {run : TimedRun} {before after : Checkpoints ι ν}
  {outcomes results : ItemOutcomes ν}

variable [DecidableEq ι]

/-- The file of a mapping holds what one of the runs has read. -/
theorem History.sound (h : timeline.History digest T env past before) :
    before.Sound (timeline.ReadByRun digest past) (fun _ _ ↦ True) (fun _ _ ↦ True) := by
  induction h with
  | nil => exact Checkpoints.sound_empty
  | @run past before after run outcomes results _ _ fetched runs ih =>
      have hgrown : before.Sound (timeline.ReadByRun digest (run :: past)) (fun _ _ ↦ True)
          (fun _ _ ↦ True) := by
        apply ih.mono
        · rintro f refs ⟨r, hr, hread⟩
          exact ⟨r, List.mem_cons_of_mem run hr, hread⟩
        · exact fun _ _ h ↦ h
        · exact fun _ _ h ↦ h
      exact (runs.sound hgrown fetched.mappings fetched.buckets fetched.content
        (fun m hm refs hread ↦ ⟨run, List.mem_cons_self, m, hm, rfl, rfl, hread refs rfl⟩)
        (fun _ _ _ _ ↦ trivial) (fun _ _ _ _ ↦ trivial)).1

/-- Each mapping of a run was delivered from its file, or as the run itself read it. -/
theorem delivers_of_runsTo (hfetched : timeline.Fetched T env run outcomes)
    (hrun : RunsTo digest run.input run.buckets outcomes before after results)
    (hok : results.AllOk) :
    List.Forall₂ (fun m r ↦ ∃ refs, r = .ok refs ∧
      (before.mapping (checkpointIdFor digest run.input.request, safeName (mappingKey m)) =
          some refs ∨
        timeline.ReadByRun digest [run]
          (checkpointIdFor digest run.input.request, safeName (mappingKey m)) refs))
      run.input.request.mappings results.mappings := by
  have hbefore : before.Sound (fun f refs ↦ before.mapping f = some refs ∨
      timeline.ReadByRun digest [run] f refs) (fun _ _ ↦ True) (fun _ _ ↦ True) :=
    ⟨fun f refs h ↦ .inl h, fun _ _ _ ↦ trivial, fun _ _ _ ↦ trivial⟩
  exact ((hrun.sound hbefore hfetched.mappings hfetched.buckets hfetched.content
    (fun m hm refs h ↦ .inr ⟨run, List.mem_cons_self, m, hm, rfl, rfl, h refs rfl⟩)
    (fun _ _ _ _ ↦ trivial) (fun _ _ _ _ ↦ trivial)).2 hok).mappings

/-- The names of the files tell the mappings apart. -/
def FilesTellApart (mappings : List TableColumnMapping) : Prop :=
  ∀ m ∈ mappings, ∀ m' ∈ mappings, safeName (mappingKey m) = safeName (mappingKey m') →
    m.table = m'.table ∧ m.column = m'.column ∧ idColumnOf m = idColumnOf m'

omit [DecidableEq ι] in
theorem ReadByRun.exists_source {runs : List TimedRun} {m : TableColumnMapping}
    {refs : List (DbFileReference ν)} (hfiles : FilesTellApart run.input.request.mappings)
    (hids : ∀ source ∈ runs,
      checkpointIdFor digest source.input.request = checkpointIdFor digest run.input.request →
        checkpointKeyFor source.input.request = checkpointKeyFor run.input.request)
    (hm : m ∈ run.input.request.mappings)
    (h : timeline.ReadByRun digest runs
      (checkpointIdFor digest run.input.request, safeName (mappingKey m)) refs) :
    ∃ source ∈ runs, ∃ s e,
      checkpointIdFor digest source.input.request = checkpointIdFor digest run.input.request ∧
      source.start ≤ s ∧ e ≤ source.finish ∧
      timeline.ReadBetween s e run.input.request.database m batchSize refs := by
  obtain ⟨source, hsource, m₁, hm₁, hid, hname, s, e, hs, he, times, order, hmono, htimes,
    hread⟩ := h
  have hkey := hids source hsource hid
  have hdatabase : source.input.request.database = run.input.request.database :=
    congrArg CheckpointKey.database hkey
  obtain ⟨m₂, hm₂, hkeys, hread₂⟩ := exists_mapping_of_key hkey hm₁ hread
  obtain ⟨htable, hcolumn, hidColumn⟩ := hfiles m₂ hm₂ m hm (by rw [hkeys, hname])
  rw [hdatabase] at hread₂
  exact ⟨source, hsource, s, e, hid, hs, he, times, order, hmono, htimes,
    hread₂.congr htable hcolumn hidColumn⟩

/-- Data that were read while a row held its value keep the object it names. -/
theorem ReadBetween.keepsReferenced {m : TableColumnMapping} {s e : ℕ}
    {refs : List (DbFileReference ν)}
    (h : timeline.ReadBetween s e run.input.request.database m batchSize refs)
    (hrefs : Except.ok refs ∈ results.mappings) :
    timeline.KeepsReferenced T env run results m s e := by
  intro column idColumn place ref hvalue hholds hscope
  obtain ⟨times, order, _, htimes, hread⟩ := h
  obtain ⟨ref', href', hsame⟩ := hread.exists_of_holds (by decide)
    (fun i ↦ hholds (times i) (htimes i).1 (htimes i).2) hvalue
  have hmem : ref' ∈ (results.scan run.input).mappingResults.flatten :=
    List.mem_flatten.mpr ⟨refs, List.mem_map.mpr ⟨_, hrefs, rfl⟩, href'⟩
  have hscope' :
      inScope T env (effectiveProvider env run.input.request) run.buckets ref' = true := by
    rwa [inScope, hsame]
  have hkey : keyOf T env ref = keyOf T env ref' := by rw [keyOf, keyOf, hsame]
  rw [hkey]
  exact orphan_path_ne hmem hscope'

end Runs

end Timeline

/-! ## A row inserted between two runs -/

/-- The user comes after the first run. -/
def growingUsers : Timeline ℕ where
  server t _ :=
    ⟨"school".toList, [if t < 2 then { usersTable with
        rows := []
        rows_nodup := by decide
        primaryKey_notNull := by simp
        primaryKey_unique := by simp } else usersTable], by simp⟩
  text := textOfLength

def usersRun (start finish : ℕ) : TimedRun :=
  ⟨usersInput ["id".toList], ["scola".toList], start, finish⟩

/-- The bucket of the first run could not be listed. -/
def unlistedOutcomes : ItemOutcomes ℕ :=
  { usersOutcomes [.ok []] with buckets := [.error timedOut] }

def unlistedCheckpoints : Checkpoints CheckpointKey ℕ :=
  (runInOrder id (usersInput ["id".toList]) ["scola".toList] unlistedOutcomes .empty).1

theorem usersOutcomes_fetchedDuring (T : Tables) (env : Env) {start finish : ℕ}
    {refs : List (DbFileReference ℕ)}
    (h : growingUsers.ReadBetween start finish none (usersMapping "id".toList) batchSize refs) :
    growingUsers.Fetched T env (usersRun start finish) (usersOutcomes [.ok refs]) := by
  refine ⟨fun buckets hbuckets ↦ Option.some.inj hbuckets, .cons ?_ .nil, .cons ?_ .nil, .nil⟩
  · rintro refs' ⟨rfl⟩
    exact ⟨start, finish, le_rfl, le_rfl, h⟩
  · rintro objs ⟨rfl⟩ obj hobj
    rw [List.mem_singleton.mp hobj]

theorem growingUsers_history (T : Tables) (env : Env) :
    growingUsers.History id T env [usersRun 0 1] unlistedCheckpoints := by
  have hread : growingUsers.ReadBetween 0 1 none (usersMapping "id".toList) batchSize [] :=
    ⟨fun _ ↦ 0, fun idColumn ↦ .stable (rowId idColumn), monotone_const,
      fun _ ↦ ⟨le_rfl, zero_le_one⟩, "photo".toList, "id".toList, 1, rfl,
      fun h ↦ absurd h (by decide), rfl⟩
  have hfetched := usersOutcomes_fetchedDuring T env hread
  refine .run .nil (by simp) ?_
    (runsTo_runInOrder id (usersInput ["id".toList]) ["scola".toList] unlistedOutcomes .empty)
  exact ⟨hfetched.scanned, hfetched.mappings, .cons (fun objs hobjs ↦ nomatch hobjs) .nil, .nil⟩

theorem growingUsers_fetched (T : Tables) (env : Env) :
    growingUsers.Fetched T env (usersRun 3 4) (usersOutcomes [.ok [usersReference 1]]) := by
  apply usersOutcomes_fetchedDuring
  exact ⟨fun _ ↦ 3, fun idColumn ↦ .stable (rowId idColumn), monotone_const,
    fun _ ↦ ⟨le_rfl, Nat.le_succ 3⟩,
    "photo".toList, "id".toList, 1, rfl, fun h ↦ absurd h (by decide), rfl⟩

theorem growingUsers_runsTo :
    RunsTo id (usersInput ["id".toList]) ["scola".toList] (usersOutcomes [.ok [usersReference 1]])
      unlistedCheckpoints
      (runInOrder id (usersInput ["id".toList]) ["scola".toList]
        (usersOutcomes [.ok [usersReference 1]]) unlistedCheckpoints).1
      (usersOutcomes [.ok []]) :=
  runsTo_runInOrder id _ _ _ _

end StorageReconciler
