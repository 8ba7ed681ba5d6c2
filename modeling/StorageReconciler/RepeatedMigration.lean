import StorageReconciler.CopiedContents
import StorageReconciler.UpdateReport
import StorageReconciler.UrlUpdate

/-!
# Migrating twice

A pass of a migration copies the objects, writes the report, reads it back and
updates the database.  The links of the report are signed anew in each pass, and
expire.
-/

namespace StorageReconciler

open Strings Fallible

def objectUrlTtlSeconds : ℕ := 7 * 24 * 60 * 60

/-- Links that carry the second they were signed in. -/
structure LinkSigner where
  presign : ℕ → Str → Str → Str → Str
  signedAt : Str → Option ℕ
  signedAt_presign : ∀ time provider bucket key,
    signedAt (presign time provider bucket key) = some time

/-- The link has not expired. -/
def LinkSigner.Opens (signer : LinkSigner) (url : Str) (now : ℕ) : Prop :=
  ∃ time, signer.signedAt url = some time ∧ now < time + objectUrlTtlSeconds

theorem LinkSigner.not_opens (signer : LinkSigner) (time : ℕ) (provider bucket key : Str) :
    ¬ signer.Opens (signer.presign time provider bucket key) (time + objectUrlTtlSeconds) := by
  rintro ⟨signed, hsigned, hnow⟩
  rw [signer.signedAt_presign] at hsigned
  obtain rfl := Option.some.inj hsigned
  exact absurd hnow (Nat.lt_irrefl _)

variable {σ ν ω : Type}

/-- An item of the request to update; the texts must be such. -/
def updateItemOf (value : Cell → ν) (row : DbUpdateRow) : Option (UpdateItem ν) :=
  match row.sourcePath, row.destinationUrl, row.table, row.column with
  | .text sourcePath, .text destinationUrl, .text table, .text column =>
      some ⟨sourcePath, destinationUrl, table, column, value row.rowId⟩
  | _, _, _, _ => none

/-- What the passes have in common. -/
structure Migration (σ ν ω : Type) where
  body : CopyBody
  store : Str → σ
  signer : LinkSigner
  readBack : Cell → Cell
  reads : ReadsBack readBack
  value : Cell → ν
  server : Server ν ω
  db : Database ν

/-- What a pass leaves behind. -/
structure MigrationPass (ν : Type) where
  results : List CopyResult
  items : List (UpdateItem ν)
  targets : Targets
  contents : TableRows ν
  outcomes : List UpdateOutcome

section Pass

variable [DecidableEq σ] [DecidableEq ν] [DecidableEq ω] (T : Tables) (m : Migration σ ν ω)

/-- The pass is made at a time, from objects `before` and rows `contents` on, and leaves the
objects `after`. -/
structure IsPass (time : ℕ) (before after : Objects σ) (contents : TableRows ν)
    (pass : MigrationPass ν) : Prop where
  copied : ∃ bucketErrors, CopiesTo (copyCallOf m.store m.body) bucketErrors before after
    pass.results
  read : ∃ details, parseCopyReportForDbUpdate T
      ((buildCopyReport (m.signer.presign time) m.body pass.results).reread m.readBack) =
        .ok details ∧ details.results.mapM (updateItemOf m.value) = some pass.items
  valid : validateItems m.db pass.items = .ok pass.targets
  updated : updateItems m.server pass.targets pass.items contents =
    .ok (pass.contents, pass.outcomes)

omit [DecidableEq σ] in
/-- The second pass changes nothing and finds what the first one updated, and what the
first one stored goes on to open. -/
structure IsRepeatable (time : ℕ) (first second : MigrationPass ν) : Prop where
  unchanged : ∀ k contents outcomes, updateItems m.server second.targets (second.items.take k)
    first.contents = .ok (contents, outcomes) → contents = first.contents
  settled : ∀ (i : ℕ) (item : UpdateItem ν), first.items[i]? = some item →
    first.outcomes[i]? = some .updated →
    ∃ (j : ℕ) (again : UpdateItem ν), second.items[j]? = some again ∧
      again.table = item.table ∧ again.column = item.column ∧ again.rowId = item.rowId ∧
      second.outcomes[j]? = some .alreadyUpdated
  lasting : ∀ (k : ℕ) (item : UpdateItem ν) (contents contents' : TableRows ν)
    (outcomes : List UpdateOutcome) (outcome : UpdateOutcome), first.items[k]? = some item →
    updateItems m.server first.targets (first.items.take k) m.db.contents =
      .ok (contents, outcomes) →
    updateOne m.server first.targets item contents = .ok (contents', outcome) →
    contents' ≠ contents → ∀ later, time ≤ later → m.signer.Opens item.destinationUrl later

omit [DecidableEq σ] in
/-- The row that the item is judged by holds the source path, and not yet the link. -/
def WouldUpdate (item : UpdateItem ν) : Prop :=
  ∃ idColumn names row, resolveTarget m.db item.table = .ok (idColumn, names) ∧
    (m.db.contents item.table).find? (isAddressed m.server idColumn item) = some row ∧
    judge m.server item (row.cell item.column) = none

/-- No row of the matched ones that a pass reports as available is to be updated. -/
def NothingDue (time : ℕ) (results : List CopyResult) : Prop :=
  ∀ (i : ℕ) (item : CopyItem) (result : CopyResult) (row : DbUpdateRow) (update : UpdateItem ν),
    m.body.items[i]? = some item → results[i]? = some result →
    reportedUpdate m.readBack (m.signer.presign time) m.body.destProvider item result = some row →
    updateItemOf m.value row = some update → ¬ WouldUpdate m update

end Pass

theorem destinationUrl_of_updateItemOf {value : Cell → ν} {row : DbUpdateRow}
    {update : UpdateItem ν} (h : updateItemOf value row = some update) :
    row.destinationUrl = .text update.destinationUrl := by
  unfold updateItemOf at h
  split at h
  · next hurl _ _ =>
      obtain rfl := Option.some.inj h
      exact hurl
  · cases h

/-! ## When an item changes its row -/

section Due

variable [DecidableEq ν] [DecidableEq ω] {server : Server ν ω} {targets : Targets}
  {items : List (UpdateItem ν)} {item : UpdateItem ν} {contents contents' : TableRows ν}
  {outcome : UpdateOutcome} {outcomes : List UpdateOutcome}

/-- The row that the item is judged by is to be updated. -/
def IsDueIn (server : Server ν ω) (targets : Targets) (contents : TableRows ν)
    (item : UpdateItem ν) : Prop :=
  ∃ idColumn names row, targets.get? item.table = some (idColumn, names) ∧
    (contents item.table).find? (isAddressed server idColumn item) = some row ∧
    judge server item (row.cell item.column) = none

theorem updateOne_of_not_isDueIn (hdue : ¬ IsDueIn server targets contents item)
    (h : updateOne server targets item contents = .ok (contents', outcome)) :
    contents' = contents ∧ outcome ≠ .updated := by
  obtain ⟨idColumn, names, htarget, ⟨_, rfl, rfl⟩ | ⟨row, hfind, hcases⟩⟩ := updateOne_cases h
  · exact ⟨rfl, by decide⟩
  · rcases hcases with ⟨hjudge, rfl⟩ | ⟨hjudge, _⟩
    · exact ⟨rfl, ne_updated_of_judge hjudge⟩
    · exact absurd ⟨idColumn, names, row, htarget, hfind, hjudge⟩ hdue

theorem updateOne_of_isDueIn (hdue : IsDueIn server targets contents item)
    (h : updateOne server targets item contents = .ok (contents', outcome)) :
    contents' ≠ contents := by
  rintro rfl
  obtain ⟨idColumn, names, row, htarget, hfind, hjudge⟩ := hdue
  obtain ⟨hsource, hdest⟩ := judge_eq_none_iff.mp hjudge
  have hmatch : isMatched server idColumn item row = true := by
    rw [isMatched, List.find?_some hfind, hsource]
    simp [Server.same]
  have hwritten : applyUpdate server idColumn item contents' = contents' := by
    obtain ⟨_, _, htarget', ⟨hnone, _⟩ | ⟨row', hfind', hcases⟩⟩ := updateOne_cases h
    all_goals obtain ⟨rfl, rfl⟩ := Prod.mk.inj (Option.some.inj (htarget.symm.trans htarget'))
    · rw [hfind] at hnone
      cases hnone
    · obtain rfl := Option.some.inj (hfind.symm.trans hfind')
      rcases hcases with ⟨hjudge', _⟩ | ⟨_, _, hcontents, _⟩
      · rw [hjudge] at hjudge'
        cases hjudge'
      · exact hcontents.symm
  -- the row that was found would hold the destination before
  obtain ⟨i, hi⟩ := List.mem_iff_getElem?.mp (List.mem_of_find?_eq_some hfind)
  have hrow : updateRow server idColumn item row = row := by
    have hi' : (applyUpdate server idColumn item contents' item.table)[i]? =
        some (updateRow server idColumn item row) := getElem?_applyUpdate hi
    rw [hwritten, hi] at hi'
    exact (Option.some.inj hi').symm
  have hcell := updateRow_cell hmatch
  rw [hrow] at hcell
  exact hdest hcell

theorem updateItems_of_not_isDueIn (hdue : ∀ item ∈ items, ¬ IsDueIn server targets contents item)
    (h : updateItems server targets items contents = .ok (contents', outcomes)) :
    contents' = contents ∧ .updated ∉ outcomes := by
  induction items generalizing outcomes with
  | nil =>
      obtain ⟨rfl, rfl⟩ := Prod.mk.inj (Except.ok.inj h)
      exact ⟨rfl, List.not_mem_nil⟩
  | cons item rest ih =>
      obtain ⟨contents₁, outcome, outcomes', hone, hrest, rfl⟩ := updateItems_cons_eq_ok h
      obtain ⟨rfl, hne⟩ := updateOne_of_not_isDueIn (hdue item List.mem_cons_self) hone
      obtain ⟨rfl, hnone⟩ := ih (fun other hother ↦ hdue other (List.mem_cons_of_mem item hother))
        hrest
      exact ⟨rfl, fun hmem ↦ (List.mem_cons.mp hmem).elim (fun heq ↦ hne heq.symm) hnone⟩

/-- The first item that is due changes a row, and nothing was changed before it. -/
theorem exists_change_of_isDueIn (hitem : item ∈ items)
    (hdue : IsDueIn server targets contents item)
    (h : updateItems server targets items contents = .ok (contents', outcomes)) :
    ∃ k first outcomes₁ contents₂ outcome, items[k]? = some first ∧
      updateItems server targets (items.take k) contents = .ok (contents, outcomes₁) ∧
      updateOne server targets first contents = .ok (contents₂, outcome) ∧
      contents₂ ≠ contents := by
  induction items generalizing outcomes with
  | nil => exact absurd hitem List.not_mem_nil
  | cons first rest ih =>
      obtain ⟨contents₁, outcome, outcomes', hone, hrest, rfl⟩ := updateItems_cons_eq_ok h
      by_cases hfirst : IsDueIn server targets contents first
      · exact ⟨0, first, [], contents₁, outcome, rfl, rfl, hone, updateOne_of_isDueIn hfirst hone⟩
      · have hne : item ≠ first := by
          rintro rfl
          exact hfirst hdue
        obtain ⟨rfl, _⟩ := updateOne_of_not_isDueIn hfirst hone
        obtain ⟨k, later, outcomes₁, contents₂, outcome₂, hk, hbefore, hlater, hchanged⟩ :=
          ih ((List.mem_cons.mp hitem).resolve_left hne) hrest
        exact ⟨k + 1, later, outcome :: outcomes₁, contents₂, outcome₂, hk,
          updateItems_cons_of_eq_ok hone hbefore, hlater, hchanged⟩

end Due

/-! ## What a pass asks the database for -/

section Passes

variable [DecidableEq σ] [DecidableEq ν] [DecidableEq ω] {T : Tables} {m : Migration σ ν ω}
  {time : ℕ} {before after : Objects σ} {contents : TableRows ν} {pass : MigrationPass ν}

theorem IsPass.mem_items_iff (h : IsPass T m time before after contents pass)
    {update : UpdateItem ν} :
    update ∈ pass.items ↔ ∃ (i : ℕ) (item : CopyItem) (result : CopyResult) (row : DbUpdateRow),
      m.body.items[i]? = some item ∧ pass.results[i]? = some result ∧
      reportedUpdate m.readBack (m.signer.presign time) m.body.destProvider item result =
        some row ∧ updateItemOf m.value row = some update := by
  obtain ⟨details, hparse, hitems⟩ := h.read
  obtain ⟨stats, hwritten⟩ := parseCopyReportForDbUpdate_buildCopyReport T
    (m.signer.presign time) m.reads m.body pass.results
  rw [hwritten] at hparse
  obtain rfl := Except.ok.inj hparse
  rw [mem_of_mapM_eq_some hitems]
  constructor
  · rintro ⟨row, hrow, hupdate⟩
    obtain ⟨⟨item, result⟩, hzip, hrow⟩ := List.mem_filterMap.mp hrow
    obtain ⟨i, hi⟩ := List.mem_iff_getElem?.mp hzip
    obtain ⟨hitem, hresult⟩ := List.getElem?_zip_eq_some.mp hi
    exact ⟨i, item, result, row, hitem, hresult, hrow, hupdate⟩
  · rintro ⟨i, item, result, row, hitem, hresult, hrow, hupdate⟩
    have hzip : (item, result) ∈ m.body.items.zip pass.results :=
      List.mem_of_getElem? (List.getElem?_zip_eq_some.mpr ⟨hitem, hresult⟩)
    exact ⟨row, List.mem_filterMap.mpr ⟨(item, result), hzip, hrow⟩, hupdate⟩

theorem IsPass.exists_presign (h : IsPass T m time before after contents pass)
    {update : UpdateItem ν} (hupdate : update ∈ pass.items) :
    ∃ provider bucket key, update.destinationUrl = m.signer.presign time provider bucket key := by
  obtain ⟨_, item, result, row, _, _, hreported, hrow⟩ := h.mem_items_iff.mp hupdate
  unfold reportedUpdate at hreported
  split_ifs at hreported with hcomplete
  obtain rfl := Option.some.inj hreported
  rw [Bool.and_eq_true, DbUpdateRow.isComplete, List.all_eq_true] at hcomplete
  have hurl := destinationUrl_of_updateItemOf hrow
  have hnonempty := hcomplete.2 (.text update.destinationUrl) (by simp [hurl])
  rw [reportedRow] at hurl
  rcases m.reads.kept (.text (if result.destBucket = [] then []
    else m.signer.presign time m.body.destProvider result.destBucket result.key)) with
    hkept | hblank
  · rw [hkept, Cell.text.injEq] at hurl
    split_ifs at hurl with hbucket
    · simp [← hurl] at hnonempty
    · exact ⟨m.body.destProvider, result.destBucket, result.key, hurl.symm⟩
  · rw [hblank] at hurl
    cases hurl

theorem IsPass.nothingDue_iff (h : IsPass T m time before after contents pass) :
    (∀ item ∈ pass.items, ¬ IsDueIn m.server pass.targets m.db.contents item) ↔
      NothingDue m time pass.results := by
  have hdue : ∀ item ∈ pass.items,
      IsDueIn m.server pass.targets m.db.contents item ↔ WouldUpdate m item := by
    intro item hitem
    obtain ⟨⟨idColumn, names⟩, hresolve, htarget⟩ := target_of_validateItems h.valid hitem
    constructor
    · rintro ⟨idColumn', names', row, htarget', hrow⟩
      obtain ⟨rfl, rfl⟩ := Prod.mk.inj (Option.some.inj (htarget.symm.trans htarget'))
      exact ⟨idColumn, names, row, hresolve, hrow⟩
    · rintro ⟨idColumn', names', row, hresolve', hrow⟩
      obtain ⟨rfl, rfl⟩ := Prod.mk.inj (Except.ok.inj (hresolve.symm.trans hresolve'))
      exact ⟨idColumn, names, row, htarget, hrow⟩
  constructor
  · intro hnone i item result row update hitem hresult hrow hupdate hwould
    have hmem := h.mem_items_iff.mpr ⟨i, item, result, row, hitem, hresult, hrow, hupdate⟩
    exact hnone update hmem ((hdue update hmem).mpr hwould)
  · intro hnone update hmem hisDue
    obtain ⟨i, item, result, row, hitem, hresult, hrow, hupdate⟩ := h.mem_items_iff.mp hmem
    exact hnone i item result row update hitem hresult hrow hupdate ((hdue update hmem).mp hisDue)

variable {time₂ : ℕ} {after₂ : Objects σ} {first second : MigrationPass ν}

/-- A migration can be repeated if and only if neither pass finds anything to update. -/
theorem isRepeatable_iff_nothingDue (hfirst : IsPass T m time before after m.db.contents first)
    (hsecond : IsPass T m time₂ after after₂ first.contents second) :
    IsRepeatable m time first second ↔
      NothingDue m time first.results ∧ NothingDue m time₂ second.results := by
  rw [← hfirst.nothingDue_iff, ← hsecond.nothingDue_iff]
  constructor
  · intro h
    have hnone : ∀ item ∈ first.items, ¬ IsDueIn m.server first.targets m.db.contents item := by
      intro item hitem hdue
      obtain ⟨k, changed, outcomes, contents', outcome, hk, hbefore, hone, hne⟩ :=
        exists_change_of_isDueIn hitem hdue hfirst.updated
      obtain ⟨provider, bucket, key, hurl⟩ := hfirst.exists_presign (List.mem_of_getElem? hk)
      have hopens := h.lasting k changed _ contents' outcomes outcome hk hbefore hone hne
        (time + objectUrlTtlSeconds) (Nat.le_add_right _ _)
      rw [hurl] at hopens
      exact m.signer.not_opens time provider bucket key hopens
    refine ⟨hnone, fun item hitem hdue ↦ ?_⟩
    obtain ⟨hsame, _⟩ := updateItems_of_not_isDueIn hnone hfirst.updated
    rw [← hsame] at hdue
    obtain ⟨k, changed, outcomes, contents', outcome, hk, hbefore, hone, hne⟩ :=
      exists_change_of_isDueIn hitem hdue hsecond.updated
    obtain ⟨hlt, hget⟩ := List.getElem?_eq_some_iff.mp hk
    have hlonger : second.items.take (k + 1) = second.items.take k ++ [changed] := by
      rw [List.take_succ_eq_append_getElem hlt, hget]
    exact hne (h.unchanged (k + 1) contents' (outcomes ++ [outcome])
      (hlonger ▸ updateItems_concat_of_eq_ok hbefore hone))
  · rintro ⟨hnone, hnone₂⟩
    obtain ⟨hsame, hupdated⟩ := updateItems_of_not_isDueIn hnone hfirst.updated
    refine ⟨?_, ?_, ?_⟩
    · intro k contents outcomes hrun
      refine (updateItems_of_not_isDueIn (fun item hitem ↦ ?_) hrun).1
      rw [hsame]
      exact hnone₂ item (List.mem_of_mem_take hitem)
    · intro i item _ houtcome
      exact absurd (List.mem_of_getElem? houtcome) hupdated
    · intro k item contents contents' outcomes outcome hk hbefore hone hne
      obtain ⟨rfl, _⟩ := updateItems_of_not_isDueIn
        (fun other hother ↦ hnone other (List.mem_of_mem_take hother)) hbefore
      have hitem := List.mem_of_getElem? hk
      exact absurd (updateOne_of_not_isDueIn (hnone item hitem) hone).1 hne

end Passes

/-! ## One row, twice -/

/-- The second of the signature in decimal digits at the end of the link. -/
def stampedSigner : LinkSigner where
  presign time _ bucket key := "https://wasabi.test/".toList ++
    (bucket ++ '/' :: (key ++ ("?X-Amz-Date".toList ++ '=' :: Nat.toDigits 10 time)))
  signedAt url := some (Nat.ofDigitChars 10 (url.reverse.takeWhile (· ≠ '=')).reverse 0)
  signedAt_presign time _ bucket key := by
    have hdigits : ∀ c ∈ (Nat.toDigits 10 time).reverse, decide (c ≠ '=') = true := by
      intro c hc
      have hdigit := Nat.isDigit_of_mem_toDigits (by decide) (by decide) (List.mem_reverse.mp hc)
      rw [decide_eq_true_eq]
      rintro rfl
      exact absurd hdigit (by decide)
    simp only [List.reverse_append, List.reverse_cons, List.append_assoc]
    rw [List.takeWhile_append_of_pos hdigits]
    simp

def matchedBody : CopyBody where
  items := [⟨"scola".toList, "a.png".toList, .blank, some ['a'], some "files".toList,
    some "file".toList, .text ['7']⟩]
  sourceProvider := "do".toList
  destProvider := "wasabi".toList
  destBucket := none
  overwrite := false
  makePublic := false

def matchedMigration (db : Database Str) : Migration Str Str Str where
  body := matchedBody
  store := id
  signer := stampedSigner
  readBack := readBackCell
  reads := readBackCell_reads
  value := Cell.strOrEmpty
  server := plainServer
  db := db

/-- The photo is at both providers. -/
def migratedObjects : Objects Str := photoObjects (some (photoObject [1]))

theorem matchedBody_skips : CopiesTo (copyCallOf id matchedBody) (fun _ ↦ none) migratedObjects
    migratedObjects [photoResult true] := by
  have hthere : migratedObjects ((copyCallOf id matchedBody).destOf photoItem) =
      some (photoObject [1]) := rfl
  exact copiesTo_of_present rfl rfl rfl hthere

def photoLink (time : ℕ) : Str :=
  stampedSigner.presign time "wasabi".toList "scola".toList "a.png".toList

def matchedUpdate (time : ℕ) : UpdateItem Str := pathItem ['7'] ['a'] (photoLink time)

theorem isPass_matched {db : Database Str} {time : ℕ} {contents contents' : TableRows Str}
    {outcomes : List UpdateOutcome}
    (hvalid : validateItems db [matchedUpdate time] = .ok fileTargets)
    (hrun : updateItems plainServer fileTargets [matchedUpdate time] contents =
      .ok (contents', outcomes)) :
    IsPass Tables.ascii (matchedMigration db) time migratedObjects migratedObjects contents
      ⟨[photoResult true], [matchedUpdate time], fileTargets, contents', outcomes⟩ := by
  refine ⟨⟨_, matchedBody_skips⟩, ?_, hvalid, hrun⟩
  obtain ⟨stats, hparse⟩ := parseCopyReportForDbUpdate_buildCopyReport Tables.ascii
    (stampedSigner.presign time) readBackCell_reads matchedBody [photoResult true]
  exact ⟨_, hparse, rfl⟩

/-- Both passes find the photo in place, but the second one another link in the row. -/
theorem second_pass_conflicts :
    ∃ first second, IsPass Tables.ascii (matchedMigration singleDatabase) 0 migratedObjects
        migratedObjects singleDatabase.contents first ∧
      IsPass Tables.ascii (matchedMigration singleDatabase) 1 migratedObjects migratedObjects
        first.contents second ∧
      first.outcomes = [.updated] ∧ second.outcomes = [.conflict] ∧
      ¬ IsRepeatable (matchedMigration singleDatabase) 0 first second := by
  have hfirst : updateItems plainServer fileTargets [matchedUpdate 0] singleDatabase.contents =
      .ok (applyUpdate plainServer "id".toList (matchedUpdate 0) singleDatabase.contents,
        [.updated]) := rfl
  have hsecond : updateItems plainServer fileTargets [matchedUpdate 1]
      (applyUpdate plainServer "id".toList (matchedUpdate 0) singleDatabase.contents) =
      .ok (applyUpdate plainServer "id".toList (matchedUpdate 0) singleDatabase.contents,
        [.conflict]) := rfl
  refine ⟨_, _, isPass_matched rfl hfirst, isPass_matched rfl hsecond, rfl, rfl, fun h ↦ ?_⟩
  obtain ⟨j, _, _, _, _, _, houtcome⟩ := h.settled 0 (matchedUpdate 0) rfl rfl
  cases j with
  | zero => cases houtcome
  | succ j => cases houtcome

/-- The row of the photo holds another path by now. -/
def repointedDatabase : Database Str := legacyDatabase [pathRow 0 ['7'] ['b']] (by decide)

theorem repointed_not_isDueIn (time : ℕ) : ∀ item ∈ [matchedUpdate time],
    ¬ IsDueIn plainServer fileTargets repointedDatabase.contents item := by
  rintro item hitem ⟨idColumn, names, row, htarget, hfind, hjudge⟩
  obtain rfl := List.mem_singleton.mp hitem
  obtain ⟨rfl, _⟩ := Prod.mk.inj (Option.some.inj htarget)
  have hrow : row = pathRow 0 ['7'] ['b'] := List.mem_singleton.mp (List.mem_of_find?_eq_some hfind)
  subst hrow
  cases hjudge

theorem repointed_isRepeatable :
    ∃ first second, first.outcomes = [.conflict] ∧
      IsRepeatable (matchedMigration repointedDatabase) 0 first second := by
  have hrun : ∀ time, updateItems plainServer fileTargets [matchedUpdate time]
      repointedDatabase.contents = .ok (repointedDatabase.contents, [.conflict]) := fun _ ↦ rfl
  have hpass : ∀ time, IsPass Tables.ascii (matchedMigration repointedDatabase) time
      migratedObjects migratedObjects repointedDatabase.contents
      ⟨[photoResult true], [matchedUpdate time], fileTargets, repointedDatabase.contents,
        [.conflict]⟩ := fun time ↦ isPass_matched rfl (hrun time)
  have hnone : ∀ time, NothingDue (matchedMigration repointedDatabase) time [photoResult true] :=
    fun time ↦ (hpass time).nothingDue_iff.mp (repointed_not_isDueIn time)
  exact ⟨_, _, rfl, (isRepeatable_iff_nothingDue (hpass 0) (hpass 1)).mpr ⟨hnone 0, hnone 1⟩⟩

end StorageReconciler
