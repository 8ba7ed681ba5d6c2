import Mathlib.Logic.Relation
import StorageReconciler.UrlUpdate

/-!
# Updating URLs among other writers

The steps of an update, with those of other clients between them: an item is
looked up, and where its row holds the source path the update follows as a step
of its own.  A connection can be lost after an update has taken effect.  Each
cell that an update changes is recorded with the number of the item.
-/

namespace StorageReconciler

open Strings Fallible

variable {ν ω : Type}

/-- An item is to be looked up, its update is due, or the connection is lost. -/
inductive UpdatePhase where
  | selecting
  | updating
  | stopped
  deriving DecidableEq

structure CellChange (ν : Type) where
  index : ℕ
  table : Str
  place : ℕ
  column : Str
  before : Option ν
  after : Option ν

def CellChange.address (change : CellChange ν) : Str × ℕ × Str :=
  (change.table, change.place, change.column)

/-- A cell differs between two contents, by the item of a number. -/
def IsChange (index : ℕ) (before after : TableRows ν) (change : CellChange ν) : Prop :=
  ∃ (i : ℕ) (row row' : Row ν), (before change.table)[i]? = some row ∧
    (after change.table)[i]? = some row' ∧ row'.cell change.column ≠ row.cell change.column ∧
    change = ⟨index, change.table, row.place, change.column, row.cell change.column,
      row'.cell change.column⟩

/-- The outcomes are those of the items that are done, in their order. -/
structure UpdateState (ν : Type) where
  contents : TableRows ν
  phase : UpdatePhase
  outcomes : List UpdateOutcome
  changes : List (CellChange ν)

namespace UpdateState

def start (contents : TableRows ν) : UpdateState ν := ⟨contents, .selecting, [], []⟩

def finish (s : UpdateState ν) (outcome : UpdateOutcome) : UpdateState ν :=
  { s with phase := .selecting, outcomes := s.outcomes ++ [outcome] }

end UpdateState

inductive UpdateAction where
  | client
  | select
  | update
  | lose
  deriving DecidableEq

section Steps

variable [DecidableEq ν] [DecidableEq ω] (server : Server ν ω) (targets : Targets)
  (items : List (UpdateItem ν))

/-- What the update of an item changes. -/
def changesOf (idColumn : Str) (item : UpdateItem ν) (s : UpdateState ν) : List (CellChange ν) :=
  (changedRows server idColumn item s.contents).map fun row ↦
    { index := s.outcomes.length
      table := item.table
      place := row.place
      column := item.column
      before := row.cell item.column
      after := some (server.text item.destinationUrl) }

def UpdateState.write (s : UpdateState ν) (idColumn : Str) (item : UpdateItem ν) :
    UpdateState ν :=
  { s with
    contents := applyUpdate server idColumn item s.contents
    changes := s.changes ++ changesOf server idColumn item s }

/-- The item is the next one, with the id column of its table. -/
def IsNext (s : UpdateState ν) (item : UpdateItem ν) (idColumn : Str) : Prop :=
  items[s.outcomes.length]? = some item ∧
    ∃ names, targets.get? item.table = some (idColumn, names)

inductive UpdateStep : UpdateAction → UpdateState ν → UpdateState ν → Prop where
  | client {s : UpdateState ν} (contents : TableRows ν) :
      UpdateStep .client s { s with contents := contents }
  | missing {s : UpdateState ν} {item : UpdateItem ν} {idColumn : Str}
      (next : IsNext targets items s item idColumn) (phase : s.phase = .selecting)
      (absent : ∀ row ∈ s.contents item.table, isAddressed server idColumn item row = false) :
      UpdateStep .select s (s.finish .missing)
  | settled {s : UpdateState ν} {item : UpdateItem ν} {idColumn : Str} {row : Row ν}
      {outcome : UpdateOutcome} (next : IsNext targets items s item idColumn)
      (phase : s.phase = .selecting) (there : row ∈ s.contents item.table)
      (addressed : isAddressed server idColumn item row = true)
      (judged : judge server item (row.cell item.column) = some outcome) :
      UpdateStep .select s (s.finish outcome)
  | due {s : UpdateState ν} {item : UpdateItem ν} {idColumn : Str} {row : Row ν}
      (next : IsNext targets items s item idColumn) (phase : s.phase = .selecting)
      (there : row ∈ s.contents item.table)
      (addressed : isAddressed server idColumn item row = true)
      (judged : judge server item (row.cell item.column) = none) :
      UpdateStep .select s { s with phase := .updating }
  | update {s : UpdateState ν} {item : UpdateItem ν} {idColumn : Str}
      (next : IsNext targets items s item idColumn) (phase : s.phase = .updating)
      (admitted : server.admits item.table (updatedRows server idColumn item s.contents) = .ok ()) :
      UpdateStep .update s ((s.write server idColumn item).finish
        (updateOutcome (changedRows server idColumn item s.contents).length))
  | lose {s : UpdateState ν} {item : UpdateItem ν} {idColumn : Str}
      (next : IsNext targets items s item idColumn) (phase : s.phase = .updating)
      (admitted : server.admits item.table (updatedRows server idColumn item s.contents) = .ok ()) :
      UpdateStep .lose s { s.write server idColumn item with phase := .stopped }

/-- The update that comes next would change one cell at most, one that holds the
source path of its item and was not changed before. -/
def IsGuarded (s : UpdateState ν) : Prop :=
  ∀ item idColumn, IsNext targets items s item idColumn →
    (changedRows server idColumn item s.contents).length ≤ 1 ∧
    ∀ row ∈ changedRows server idColumn item s.contents,
      row.cell item.column = some (server.text item.sourcePath) ∧
        (item.table, row.place, item.column) ∉ s.changes.map CellChange.address

def Steps (s s' : UpdateState ν) : Prop := ∃ action, UpdateStep server targets items action s s'

def GuardedSteps (s s' : UpdateState ν) : Prop :=
  ∃ action, UpdateStep server targets items action s s' ∧
    (action = .update ∨ action = .lose → IsGuarded server targets items s)

end Steps

section Runs

variable [DecidableEq ν] [DecidableEq ω] (server : Server ν ω) (db : Database ν)
  (items : List (UpdateItem ν))

/-- The update of valid items comes to a state. -/
def UpdateReaches (s : UpdateState ν) : Prop :=
  ∃ targets, validateItems db items = .ok targets ∧
    Relation.ReflTransGen (Steps server targets items) (.start db.contents) s

/-- It does, and each of its updates was guarded. -/
def GuardedReaches (s : UpdateState ν) : Prop :=
  ∃ targets, validateItems db items = .ok targets ∧
    Relation.ReflTransGen (GuardedSteps server targets items) (.start db.contents) s

omit [DecidableEq ν] [DecidableEq ω] in
/-- The changes are those the items ask for, none of them by an item that counts as
left alone, and as many as are counted, each of another cell. -/
structure IsTruthful (s : UpdateState ν) : Prop where
  asked : ∀ change ∈ s.changes, ∃ item, items[change.index]? = some item ∧
    change.table = item.table ∧ change.column = item.column ∧
    change.before = some (server.text item.sourcePath) ∧
    change.after = some (server.text item.destinationUrl)
  counted : ∀ change ∈ s.changes, ∀ outcome, s.outcomes[change.index]? = some outcome →
    outcome = .updated
  number : s.phase ≠ .stopped → (countsOf s.outcomes items.length).updated =
    (s.changes.map CellChange.address).dedup.length

end Runs

/-! ## What is recorded -/

section Recorded

variable [DecidableEq ν] [DecidableEq ω] {server : Server ν ω} {targets : Targets}
  {items : List (UpdateItem ν)} {idColumn : Str} {item : UpdateItem ν} {s s' : UpdateState ν}

theorem mem_changesOf {change : CellChange ν} :
    change ∈ changesOf server idColumn item s ↔ IsChange s.outcomes.length s.contents
      (applyUpdate server idColumn item s.contents) change := by
  constructor
  · intro h
    obtain ⟨row, hrow, rfl⟩ := List.mem_map.mp h
    obtain ⟨hmem, hmatch, _⟩ := mem_changedRows.mp hrow
    obtain ⟨i, hi⟩ := List.mem_iff_getElem?.mp hmem
    refine ⟨i, row, updateRow server idColumn item row, hi, getElem?_applyUpdate hi, ?_, ?_⟩
    · exact (updateRow_cell_ne_iff hmem).mpr ⟨rfl, hrow⟩
    · simp only [updateRow_cell hmatch]
  · rintro ⟨i, row, row', hi, hi', hne, heq⟩
    by_cases htable : change.table = item.table
    · rw [htable] at hi hi'
      obtain rfl := Option.some.inj ((getElem?_applyUpdate hi).symm.trans hi')
      obtain ⟨hcolumn, hrow⟩ := (updateRow_cell_ne_iff (List.mem_of_getElem? hi)).mp hne
      rw [heq, htable, hcolumn, updateRow_cell (mem_changedRows.mp hrow).2.1]
      exact List.mem_map_of_mem hrow
    · rw [applyUpdate_of_ne htable, hi] at hi'
      obtain rfl := Option.some.inj hi'
      exact absurd rfl hne

/-- A step of the call changes the cells that it records, and no other. -/
theorem UpdateStep.recorded {action : UpdateAction}
    (h : UpdateStep server targets items action s s') (hown : action ≠ .client) :
    ∃ recorded, s'.changes = s.changes ++ recorded ∧ ∀ change,
      change ∈ recorded ↔ IsChange s.outcomes.length s.contents s'.contents change := by
  -- where nothing is written, the rows before and after are the same
  have hread : ∀ t : UpdateState ν, t.contents = s.contents → t.changes = s.changes →
      ∃ recorded, t.changes = s.changes ++ recorded ∧ ∀ change,
        change ∈ recorded ↔ IsChange s.outcomes.length s.contents t.contents change := by
    intro t hcontents hchanges
    refine ⟨[], by simp [hchanges], fun change ↦ iff_of_false List.not_mem_nil ?_⟩
    rintro ⟨i, row, row', hi, hi', hne, _⟩
    rw [hcontents, hi] at hi'
    exact hne (by rw [Option.some.inj hi'])
  cases h with
  | client => exact absurd rfl hown
  | missing => exact hread _ rfl rfl
  | settled => exact hread _ rfl rfl
  | due => exact hread _ rfl rfl
  | @update _ item idColumn => exact ⟨changesOf server idColumn item s, rfl, fun _ ↦ mem_changesOf⟩
  | @lose _ item idColumn => exact ⟨changesOf server idColumn item s, rfl, fun _ ↦ mem_changesOf⟩

end Recorded

/-! ## Guarded runs -/

section Guarded

variable [DecidableEq ν] [DecidableEq ω] {server : Server ν ω} {targets : Targets}
  {items : List (UpdateItem ν)} {idColumn : Str} {item : UpdateItem ν} {s s' : UpdateState ν}

/-- What guarded steps keep. -/
structure IsAccounted (server : Server ν ω) (items : List (UpdateItem ν)) (s : UpdateState ν) :
    Prop where
  asked : ∀ change ∈ s.changes, ∃ item, items[change.index]? = some item ∧
    change.table = item.table ∧ change.column = item.column ∧
    change.before = some (server.text item.sourcePath) ∧
    change.after = some (server.text item.destinationUrl)
  indexed : s.phase ≠ .stopped → ∀ change ∈ s.changes, change.index < s.outcomes.length
  counted : ∀ change ∈ s.changes, ∀ outcome, s.outcomes[change.index]? = some outcome →
    outcome = .updated
  nodup : (s.changes.map CellChange.address).Nodup
  number : s.phase ≠ .stopped → s.outcomes.count .updated = s.changes.length

omit [DecidableEq ν] [DecidableEq ω] in
theorem isAccounted_start (contents : TableRows ν) :
    IsAccounted server items (.start contents) where
  asked := fun _ h ↦ absurd h List.not_mem_nil
  indexed := fun _ _ h ↦ absurd h List.not_mem_nil
  counted := fun _ h ↦ absurd h List.not_mem_nil
  nodup := List.nodup_nil
  number := fun _ ↦ rfl

omit [DecidableEq ν] [DecidableEq ω] in
theorem IsAccounted.finish (h : IsAccounted server items s) (hphase : s.phase = .selecting)
    {outcome : UpdateOutcome} (houtcome : outcome ≠ .updated) :
    IsAccounted server items (s.finish outcome) := by
  have hrunning : s.phase ≠ .stopped := by simp [hphase]
  have hindexed := h.indexed hrunning
  refine ⟨h.asked, ?_, ?_, h.nodup, ?_⟩
  · intro _ change hchange
    have hlt := hindexed change hchange
    simp only [UpdateState.finish, List.length_append, List.length_singleton]
    omega
  · intro change hchange found hfound
    simp only [UpdateState.finish] at hfound
    rw [List.getElem?_append_left (hindexed change hchange)] at hfound
    exact h.counted change hchange found hfound
  · intro _
    simp only [UpdateState.finish, List.count_append, h.number hrunning,
      List.count_singleton, beq_iff_eq, houtcome, if_false, Nat.add_zero]

theorem changesOf_cases (hguard : IsGuarded server targets items s)
    (hnext : IsNext targets items s item idColumn) :
    (changesOf server idColumn item s = [] ∧
        updateOutcome (changedRows server idColumn item s.contents).length = .conflict) ∨
      ∃ change, changesOf server idColumn item s = [change] ∧
        updateOutcome (changedRows server idColumn item s.contents).length = .updated ∧
        change.index = s.outcomes.length ∧ change.table = item.table ∧
        change.column = item.column ∧
        change.before = some (server.text item.sourcePath) ∧
        change.after = some (server.text item.destinationUrl) ∧
        change.address ∉ s.changes.map CellChange.address := by
  obtain ⟨hlength, hrows⟩ := hguard item idColumn hnext
  cases hchanged : changedRows server idColumn item s.contents with
  | nil => exact .inl ⟨by simp [changesOf, hchanged], rfl⟩
  | cons row rest =>
      rw [hchanged, List.length_cons] at hlength
      obtain rfl : rest = [] := List.eq_nil_of_length_eq_zero (by omega)
      obtain ⟨hsource, hnew⟩ := hrows row (by simp [hchanged])
      exact .inr ⟨⟨s.outcomes.length, item.table, row.place, item.column, row.cell item.column,
        some (server.text item.destinationUrl)⟩, by rw [changesOf, hchanged, List.map_singleton],
        rfl, rfl, rfl, rfl, hsource, rfl, hnew⟩

theorem IsAccounted.write (h : IsAccounted server items s)
    (hguard : IsGuarded server targets items s) (hnext : IsNext targets items s item idColumn) :
    (∀ change ∈ (s.write server idColumn item).changes, ∃ item,
        items[change.index]? = some item ∧ change.table = item.table ∧
        change.column = item.column ∧ change.before = some (server.text item.sourcePath) ∧
        change.after = some (server.text item.destinationUrl)) ∧
      ((s.write server idColumn item).changes.map CellChange.address).Nodup := by
  simp only [UpdateState.write]
  rcases changesOf_cases hguard hnext with
    ⟨hnone, _⟩ | ⟨change, hone, _, hindex, htable, hcolumn, hbefore, hafter, hnew⟩
  · rw [hnone, List.append_nil]
    exact ⟨h.asked, h.nodup⟩
  · rw [hone]
    constructor
    · intro change' hchange'
      rcases List.mem_append.mp hchange' with hold | hlast
      · exact h.asked change' hold
      · obtain rfl := List.mem_singleton.mp hlast
        exact ⟨item, hindex ▸ hnext.1, htable, hcolumn, hbefore, hafter⟩
    · rw [List.map_append, List.nodup_append]
      refine ⟨h.nodup, List.nodup_singleton _, ?_⟩
      rintro a ha b hb rfl
      rw [List.map_singleton, List.mem_singleton] at hb
      exact hnew (hb ▸ ha)

theorem IsAccounted.update (h : IsAccounted server items s) (hphase : s.phase = .updating)
    (hguard : IsGuarded server targets items s) (hnext : IsNext targets items s item idColumn) :
    IsAccounted server items ((s.write server idColumn item).finish
      (updateOutcome (changedRows server idColumn item s.contents).length)) := by
  have hrunning : s.phase ≠ .stopped := by simp [hphase]
  have hindexed := h.indexed hrunning
  obtain ⟨hasked, hnodup⟩ := h.write hguard hnext
  refine ⟨hasked, ?_, ?_, hnodup, ?_⟩
  all_goals simp only [UpdateState.finish, UpdateState.write, List.length_append,
    List.length_singleton]
  all_goals rcases changesOf_cases hguard hnext with
    ⟨hnone, hconflict⟩ | ⟨change, hone, hupdated, hindex, _⟩
  · intro _ change' hchange'
    rw [hnone, List.append_nil] at hchange'
    exact Nat.lt_succ_of_lt (hindexed change' hchange')
  · intro _ change' hchange'
    rw [hone] at hchange'
    rcases List.mem_append.mp hchange' with hold | hlast
    · exact Nat.lt_succ_of_lt (hindexed change' hold)
    · obtain rfl := List.mem_singleton.mp hlast
      omega
  · intro change' hchange' outcome houtcome
    rw [hnone, List.append_nil] at hchange'
    rw [List.getElem?_append_left (hindexed change' hchange')] at houtcome
    exact h.counted change' hchange' outcome houtcome
  · intro change' hchange' outcome houtcome
    rw [hone] at hchange'
    rcases List.mem_append.mp hchange' with hold | hlast
    · rw [List.getElem?_append_left (hindexed change' hold)] at houtcome
      exact h.counted change' hold outcome houtcome
    · obtain rfl := List.mem_singleton.mp hlast
      rw [hindex, List.getElem?_concat_length, hupdated] at houtcome
      exact (Option.some.inj houtcome).symm
  · intro _
    rw [hnone, hconflict, List.count_append, h.number hrunning]
    rfl
  · intro _
    rw [hone, hupdated, List.count_append, h.number hrunning]
    rfl

theorem IsAccounted.lose (h : IsAccounted server items s)
    (hguard : IsGuarded server targets items s) (hnext : IsNext targets items s item idColumn) :
    IsAccounted server items { s.write server idColumn item with phase := .stopped } := by
  obtain ⟨hasked, hnodup⟩ := h.write hguard hnext
  refine ⟨hasked, fun hrunning ↦ absurd rfl hrunning, ?_, hnodup,
    fun hrunning ↦ absurd rfl hrunning⟩
  intro change hchange outcome houtcome
  rcases List.mem_append.mp hchange with hold | hlast
  · exact h.counted change hold outcome houtcome
  · -- the item that was lost is not counted at all
    obtain ⟨_, _, rfl⟩ := List.mem_map.mp hlast
    rw [UpdateState.write, List.getElem?_eq_none (le_refl _)] at houtcome
    cases houtcome

theorem IsAccounted.step (h : IsAccounted server items s)
    (hstep : GuardedSteps server targets items s s') : IsAccounted server items s' := by
  obtain ⟨action, hact, hguard⟩ := hstep
  cases hact with
  | client contents => exact ⟨h.asked, h.indexed, h.counted, h.nodup, h.number⟩
  | missing next phase absent => exact h.finish phase (by decide)
  | settled next phase there addressed judged => exact h.finish phase (ne_updated_of_judge judged)
  | due next phase => exact ⟨h.asked, fun _ ↦ h.indexed (by simp [phase]), h.counted, h.nodup,
      fun _ ↦ h.number (by simp [phase])⟩
  | update next phase => exact h.update phase (hguard (.inl rfl)) next
  | lose next phase => exact h.lose (hguard (.inr rfl)) next

theorem IsAccounted.reachable (h : IsAccounted server items s)
    (hrun : Relation.ReflTransGen (GuardedSteps server targets items) s s') :
    IsAccounted server items s' := by
  induction hrun with
  | refl => exact h
  | tail _ hstep ih => exact ih.step hstep

end Guarded

/-- Where every update is guarded, what the call says of its items is true at any time. -/
theorem GuardedReaches.isTruthful [DecidableEq ν] [DecidableEq ω] {server : Server ν ω}
    {db : Database ν} {items : List (UpdateItem ν)} {s : UpdateState ν}
    (h : GuardedReaches server db items s) : IsTruthful server items s := by
  obtain ⟨targets, _, hrun⟩ := h
  have hs : IsAccounted server items s := (isAccounted_start db.contents).reachable hrun
  refine ⟨hs.asked, hs.counted, fun hrunning ↦ ?_⟩
  rw [hs.nodup.dedup, List.length_map]
  exact hs.number hrunning

/-! ## An undisturbed run -/

section Undisturbed

variable [DecidableEq ν] [DecidableEq ω] {server : Server ν ω} {targets : Targets}
  {items : List (UpdateItem ν)}

theorem updateOne_steps {s : UpdateState ν} {item : UpdateItem ν} {contents' : TableRows ν}
    {outcome : UpdateOutcome} (hitem : items[s.outcomes.length]? = some item)
    (hphase : s.phase = .selecting)
    (h : updateOne server targets item s.contents = .ok (contents', outcome)) :
    ∃ s', Relation.ReflTransGen (Steps server targets items) s s' ∧ s'.contents = contents' ∧
      s'.outcomes = s.outcomes ++ [outcome] ∧ s'.phase = .selecting := by
  obtain ⟨idColumn, names, htarget, hcases⟩ := updateOne_cases h
  have hnext : IsNext targets items s item idColumn := ⟨hitem, names, htarget⟩
  rcases hcases with ⟨hfind, rfl, rfl⟩ | ⟨row, hfind, hcases⟩
  · have habsent := List.find?_eq_none.mp hfind
    refine ⟨s.finish .missing, .single ⟨.select, .missing hnext hphase ?_⟩, rfl, rfl, rfl⟩
    intro row hrow
    simpa using habsent row hrow
  · have hmem := List.mem_of_find?_eq_some hfind
    have haddressed := List.find?_some hfind
    rcases hcases with ⟨hjudge, rfl⟩ | ⟨hjudge, hadmits, rfl, rfl⟩
    · exact ⟨s.finish outcome, .single ⟨.select, .settled hnext hphase hmem haddressed hjudge⟩,
        rfl, rfl, rfl⟩
    · have hdue : Steps server targets items s { s with phase := .updating } :=
        ⟨.select, .due hnext hphase hmem haddressed hjudge⟩
      exact ⟨_, .tail (.single hdue) ⟨.update, .update hnext rfl hadmits⟩, rfl, rfl, rfl⟩

/-- The items one after the other are a run, in which nobody else takes a step. -/
theorem updateItems_steps {done rest : List (UpdateItem ν)} {s : UpdateState ν}
    {final : TableRows ν} {outcomes : List UpdateOutcome} (hitems : items = done ++ rest)
    (hdone : s.outcomes.length = done.length) (hphase : s.phase = .selecting)
    (h : updateItems server targets rest s.contents = .ok (final, outcomes)) :
    ∃ s', Relation.ReflTransGen (Steps server targets items) s s' ∧ s'.contents = final ∧
      s'.outcomes = s.outcomes ++ outcomes ∧ s'.phase = .selecting := by
  induction rest generalizing done s outcomes with
  | nil =>
      simp only [updateItems, Except.ok.injEq, Prod.mk.injEq] at h
      exact ⟨s, .refl, h.1, by simp [← h.2], hphase⟩
  | cons item rest ih =>
      obtain ⟨contents', outcome, outcomes', hone, hrest, rfl⟩ := updateItems_cons_eq_ok h
      have hitem : items[s.outcomes.length]? = some item := by
        simp [hitems, hdone]
      obtain ⟨s₁, hrun₁, rfl, houtcomes₁, hphase₁⟩ := updateOne_steps hitem hphase hone
      have hitems₁ : items = (done ++ [item]) ++ rest := by simp [hitems]
      have hdone₁ : s₁.outcomes.length = (done ++ [item]).length := by
        simp [houtcomes₁, hdone]
      obtain ⟨s₂, hrun₂, hfinal, houtcomes₂, hphase₂⟩ := ih hitems₁ hdone₁ hphase₁ hrest
      exact ⟨s₂, hrun₁.trans hrun₂, hfinal, by simp [houtcomes₂, houtcomes₁], hphase₂⟩

/-- What a call returns is where a run of its steps from the database ends. -/
theorem updateMigratedUrls_reaches {db : Database ν} {final : TableRows ν}
    {counts : UpdateCounts} (hne : items ≠ [])
    (h : updateMigratedUrls server db items db.contents = .ok (final, counts)) :
    ∃ s, UpdateReaches server db items s ∧ s.phase = .selecting ∧ s.contents = final ∧
      countsOf s.outcomes items.length = counts := by
  rw [updateMigratedUrls, bind_eq_ok_iff] at h
  obtain ⟨_, _, h⟩ := h
  rw [if_neg hne] at h
  obtain ⟨targets, hvalid, h⟩ := bind_eq_ok_iff.mp h
  obtain ⟨⟨final', outcomes⟩, hrun, h⟩ := bind_eq_ok_iff.mp h
  obtain ⟨rfl, rfl⟩ := Prod.mk.inj (Except.ok.inj h)
  have hitems : items = [] ++ items := (List.nil_append items).symm
  obtain ⟨s, hsteps, hfinal, houtcomes, hphase⟩ :=
    updateItems_steps (s := .start db.contents) hitems rfl rfl hrun
  refine ⟨s, ⟨targets, hvalid, hsteps⟩, hphase, hfinal, ?_⟩
  rw [houtcomes]
  rfl

end Undisturbed

/-! ## A table without a primary key -/

def repeatedDatabase : Database Str :=
  legacyDatabase [pathRow 0 ['7'] ['a'], pathRow 1 ['7'] ['a']] (by decide)

theorem pathItems_isNext (contents : TableRows Str) (phase : UpdatePhase) :
    IsNext fileTargets pathItems ⟨contents, phase, [], []⟩ (pathItem ['7'] ['a'] ['b'])
      "id".toList := ⟨rfl, _, rfl⟩

theorem pathItems_due (database : Database Str) {row : Row Str}
    (hrow : row ∈ database.contents "files".toList) (hid : row.cell "id".toList = some ['7'])
    (hpath : row.cell "file".toList = some ['a']) :
    UpdateStep plainServer fileTargets pathItems .select (.start database.contents)
      ⟨database.contents, .updating, [], []⟩ := by
  apply UpdateStep.due (pathItems_isNext _ _) rfl hrow
  · exact isAddressed_iff.mpr (congrArg _ hid)
  · exact judge_eq_none_iff.mpr ⟨hpath, hpath ▸ by decide⟩

/-- The id `7` twice: the one item changes both rows, and counts as a conflict. -/
theorem repeated_id_counts_conflict :
    ∃ s, UpdateReaches plainServer repeatedDatabase pathItems s ∧
      ¬ IsTruthful plainServer pathItems s := by
  have hdue := pathItems_due repeatedDatabase List.mem_cons_self rfl rfl
  have hupdate := @UpdateStep.update _ _ _ _ plainServer _ _ _ _ _
    (pathItems_isNext repeatedDatabase.contents .updating) rfl rfl
  refine ⟨_, ⟨fileTargets, rfl, .tail (.single ⟨_, hdue⟩) ⟨_, hupdate⟩⟩, fun h ↦ ?_⟩
  have hconflict := h.counted ⟨0, _, 0, _, _, _⟩ List.mem_cons_self .conflict rfl
  cases hconflict

/-- The id `7` once: the item is updated. -/
theorem single_id_isTruthful :
    ∃ s, s.outcomes = [.updated] ∧ IsTruthful plainServer pathItems s := by
  have hdue := pathItems_due singleDatabase List.mem_cons_self rfl rfl
  have hupdate := @UpdateStep.update _ _ _ _ plainServer _ _ _ _ _
    (pathItems_isNext singleDatabase.contents .updating) rfl rfl
  have hguard : IsGuarded plainServer fileTargets pathItems
      ⟨singleDatabase.contents, .updating, [], []⟩ := by
    rintro item idColumn ⟨hitem, names, htarget⟩
    obtain rfl := Option.some.inj hitem
    obtain ⟨rfl, rfl⟩ := Prod.mk.inj (Option.some.inj htarget)
    refine ⟨by decide, fun row hrow ↦ ?_⟩
    obtain rfl := List.mem_singleton.mp hrow
    exact ⟨rfl, List.not_mem_nil⟩
  have hreach : ∃ s, s.outcomes = [.updated] ∧
      GuardedReaches plainServer singleDatabase pathItems s := by
    refine ⟨_, rfl, fileTargets, rfl, .tail (.single ⟨_, hdue, ?_⟩) ⟨_, hupdate, fun _ ↦ hguard⟩⟩
    rintro (h | h) <;> cases h
  obtain ⟨s, houtcomes, hs⟩ := hreach
  exact ⟨s, houtcomes, hs.isTruthful⟩

end StorageReconciler
