import StorageReconciler.CopyReport

/-!
# What a copy leaves at the destination

Where no other source is copied to the destination of an item, a success means
that the bytes of the item's source are there, or that an object from before the
call was left alone.  The objects a report allows to be deleted are sources of
successful items.
-/

namespace StorageReconciler

open Strings Workers

variable {σ : Type*}

/-- Items with the destination of this one have its source. -/
def CopyCall.Alone (call : CopyCall σ) (item : Str × Str) : Prop :=
  ∀ item' ∈ call.items, call.destOf item' = call.destOf item →
    call.sourceOf item' = call.sourceOf item

/-- The reported destination holds the bytes of the source, or, skipped, the object
that was there before. -/
def CopyCall.Survives (call : CopyCall σ) (before after : Objects σ) (item : Str × Str)
    (result : CopyResult) : Prop :=
  ∃ obj, after ⟨call.destProvider, result.destBucket, result.destKey⟩ = some obj ∧
    ((result.skipped = true ∧
        before ⟨call.destProvider, result.destBucket, result.destKey⟩ = some obj) ∨
      ∃ source, after (call.sourceOf item) = some source ∧ obj.bytes = source.bytes)

variable [DecidableEq σ] {call : CopyCall σ} {bucketErrors : Str → Option Str}

/-! ## One worker -/

section Invariant

variable (call) (before : Objects σ) (source dest : Location σ)

/-- The destination holds the bytes that the source had. -/
def Delivered (objects : Objects σ) : Prop :=
  ∃ o obj, before source = some o ∧ objects dest = some obj ∧ obj.bytes = o.bytes

/-- The source keeps its bytes; the destination is as before or delivered, and stays as
before where an object may not be replaced. -/
structure CopyInvariant (s : CopyState σ) : Prop where
  readable : (s.objects source).map StoredObject.bytes = (before source).map StoredObject.bytes
  filled : s.objects dest = before dest ∨ Delivered before source dest s.objects
  kept : call.overwrite = false → before dest ≠ none → s.objects dest = before dest

/-- How far a worker for the destination may be. -/
def CopyProgress (item : Str × Str) (s : CopyState σ) : CopyStatus → Prop
  | .waiting => True
  | .present => call.overwrite = false ∧ s.objects dest ≠ none
  | .transfer => call.overwrite = false → before dest = none
  | .refused _ => call.overwrite = false → before dest = none
  | .fetched body _ => (call.overwrite = false → before dest = none) ∧
      ∃ o, before source = some o ∧ body.bytes = o.bytes
  | .done result => result = call.copied item ∧ Delivered before source dest s.objects ∨
      result = call.skippedOutcome item ∧ call.overwrite = false ∧ s.objects dest ≠ none ∨
      ∃ e, result = call.failed item e

/-- The assertion about the worker of a number. -/
def CopyAssertion (i : ℕ) (s : CopyState σ) (t : CopyStatus) : Prop :=
  ∀ item, call.items[i]? = some item → call.destOf item = dest →
    CopyProgress call before source dest item s t

end Invariant

section Stable

variable {before : Objects σ} {source dest : Location σ} {item : Str × Str}
  {s s' : CopyState σ} {t t' : CopyStatus}

theorem CopyProgress.objects_cases (hdest : call.destOf item = dest)
    (h : CopyOne call bucketErrors item s t s' t')
    (hprogress : CopyProgress call before source dest item s t) :
    s'.objects = s.objects ∨ ∃ obj, s'.objects = Function.update s.objects dest (some obj) ∧
      (call.overwrite = false → before dest = none) ∧
      ∃ o, before source = some o ∧ obj.bytes = o.bytes := by
  rcases h.objects_cases with hsame | ⟨body, obj, acl, rfl, hstores, hput⟩
  · exact .inl hsame
  · obtain ⟨hnone, o, ho, hbody⟩ := hprogress
    exact .inr ⟨obj, hdest ▸ hput, hnone, o, ho, hstores.1.trans hbody⟩

theorem Delivered.update {objects : Objects σ} {obj o : StoredObject}
    (ho : before source = some o) (hbytes : obj.bytes = o.bytes) :
    Delivered before source dest (Function.update objects dest (some obj)) :=
  ⟨o, obj, ho, Function.update_self _ _ _, hbytes⟩

theorem CopyInvariant.own (hinv : CopyInvariant call before source dest s)
    (hdest : call.destOf item = dest) (h : CopyOne call bucketErrors item s t s' t')
    (hprogress : CopyProgress call before source dest item s t) :
    CopyInvariant call before source dest s' := by
  rcases hprogress.objects_cases hdest h with hsame | ⟨obj, hput, hnone, o, ho, hbytes⟩
  · constructor
    · rw [hsame]
      exact hinv.readable
    · rw [hsame]
      exact hinv.filled
    · rw [hsame]
      exact hinv.kept
  · constructor
    · rw [hput]
      by_cases hsource : source = dest
      · rw [hsource, Function.update_self, ← hsource, ho]
        simp [hbytes]
      · rw [Function.update_of_ne hsource]
        exact hinv.readable
    · rw [hput]
      exact .inr (.update ho hbytes)
    · intro hkeep hthere
      exact absurd (hnone hkeep) hthere

theorem CopyInvariant.other (hinv : CopyInvariant call before source dest s)
    (hsource : call.destOf item ≠ source) (hdest : call.destOf item ≠ dest)
    (h : CopyOne call bucketErrors item s t s' t') :
    CopyInvariant call before source dest s' ∧ s'.objects dest = s.objects dest := by
  rcases h.objects_cases with hsame | ⟨_, _, _, _, _, hput⟩
  · rw [hsame]
    exact ⟨⟨hsame ▸ hinv.readable, hsame ▸ hinv.filled, hsame ▸ hinv.kept⟩, rfl⟩
  · have hsource' : s'.objects source = s.objects source := by
      rw [hput, Function.update_of_ne hsource.symm]
    have hdest' : s'.objects dest = s.objects dest := by
      rw [hput, Function.update_of_ne hdest.symm]
    refine ⟨⟨?_, ?_, ?_⟩, hdest'⟩
    · rw [hsource']
      exact hinv.readable
    · unfold Delivered
      rw [hdest']
      exact hinv.filled
    · rw [hdest']
      exact hinv.kept

omit [DecidableEq σ] in
/-- What a worker knows of the destination stays true while others write there. -/
theorem CopyProgress.mono {item : Str × Str}
    (hnone : s.objects dest ≠ none → s'.objects dest ≠ none)
    (hdelivered : Delivered before source dest s.objects →
      Delivered before source dest s'.objects)
    (h : CopyProgress call before source dest item s t) :
    CopyProgress call before source dest item s' t := by
  cases t with
  | waiting => exact trivial
  | present => exact ⟨h.1, hnone h.2⟩
  | transfer => exact h
  | refused contentType => exact h
  | fetched body acl => exact h
  | done result =>
      rcases h with ⟨hresult, h⟩ | ⟨hresult, hkeep, h⟩ | h
      · exact .inl ⟨hresult, hdelivered h⟩
      · exact .inr (.inl ⟨hresult, hkeep, hnone h⟩)
      · exact .inr (.inr h)

theorem CopyProgress.own (hinv : CopyInvariant call before source dest s)
    (hsource : call.sourceOf item = source) (hdest : call.destOf item = dest)
    (h : CopyOne call bucketErrors item s t s' t')
    (hprogress : CopyProgress call before source dest item s t) :
    CopyProgress call before source dest item s' t' := by
  subst hdest hsource
  have hread : ∀ {obj : StoredObject}, s.objects (call.sourceOf item) = some obj →
      ∃ o, before (call.sourceOf item) = some o ∧ obj.bytes = o.bytes := by
    intro obj hobj
    have hbytes := hinv.readable
    rw [hobj, Option.map_some, eq_comm, Option.map_eq_some_iff] at hbytes
    obtain ⟨o, ho, hsame⟩ := hbytes
    exact ⟨o, ho, hsame.symm⟩
  cases h with
  | unavailable _ => exact .inr (.inr ⟨_, rfl⟩)
  | headFails _ _ => exact .inr (.inr ⟨_, rfl⟩)
  | found _ keeps there => exact ⟨keeps, there ▸ Option.some_ne_none _⟩
  | notFound _ keeps absent =>
      intro hkeep
      by_contra hthere
      exact hthere ((hinv.kept hkeep hthere).symm.trans absent)
  | force _ overwrites => exact fun hkeep ↦ absurd (hkeep.symm.trans overwrites) (by decide)
  | skip => exact .inr (.inl ⟨rfl, hprogress⟩)
  | skipRefused _ => exact .inr (.inl ⟨rfl, hprogress⟩)
  | aclFails _ => exact .inr (.inr ⟨_, rfl⟩)
  | get there => exact ⟨hprogress, hread there⟩
  | getFails => exact .inr (.inr ⟨_, rfl⟩)
  | upload stores =>
      obtain ⟨_, o, ho, hbody⟩ := hprogress
      exact .inl ⟨rfl, .update ho (stores.1.trans hbody)⟩
  | uploadRefused => exact hprogress.1
  | getAgain there =>
      obtain ⟨o, ho, hbytes⟩ := hread there
      exact ⟨hprogress, o, ho, hbytes⟩
  | getAgainFails => exact .inr (.inr ⟨_, rfl⟩)
  | uploadFails => exact .inr (.inr ⟨_, rfl⟩)
  | uploadLost _ => exact .inr (.inr ⟨_, rfl⟩)

end Stable

/-- The assertions about an item whose destination no other source shares. -/
theorem copyStable {before : Objects σ} {source dest : Location σ}
    (hself : ∀ item ∈ call.items, call.destOf item = source → call.destOf item = dest)
    (halone : ∀ item ∈ call.items, call.destOf item = dest → call.sourceOf item = source) :
    Stable (copyAction call bucketErrors) (CopyInvariant call before source dest)
      (CopyAssertion call before source dest) := by
  constructor
  · rintro i s t s' t' ⟨item, hitem, hact⟩ hinv hassert
    by_cases hdest : call.destOf item = dest
    · exact hinv.own hdest hact (hassert item hitem hdest)
    · have hsource := mt (hself item (List.mem_of_getElem? hitem)) hdest
      exact (hinv.other hsource hdest hact).1
  · rintro i s t s' t' ⟨item, hitem, hact⟩ hinv hassert item' hitem' hdest
    obtain rfl := Option.some.inj (hitem.symm.trans hitem')
    have hsource := halone item (List.mem_of_getElem? hitem) hdest
    exact (hassert item hitem hdest).own hinv hsource hdest hact
  · rintro i j s t u s' u' ⟨item, hitem, hact⟩ _ hinv hassert hassert' item' hitem' hdest'
    have hprogress := hassert' item' hitem' hdest'
    by_cases hdest : call.destOf item = dest
    · rcases (hassert item hitem hdest).objects_cases hdest hact with
        hsame | ⟨obj, hput, _, o, ho, hbytes⟩
      · exact hprogress.mono (hsame ▸ id) (hsame ▸ id)
      · refine hprogress.mono (fun _ ↦ ?_) fun _ ↦ ?_
        · rw [hput, Function.update_self]
          exact Option.some_ne_none obj
        · rw [hput]
          exact .update ho hbytes
    · have hsource := mt (hself item (List.mem_of_getElem? hitem)) hdest
      have hsame := (hinv.other hsource hdest hact).2
      exact hprogress.mono (hsame ▸ id) (by unfold Delivered; exact hsame ▸ id)

/-! ## A whole call -/

/-- A success is delivered or left alone, if no other source is copied there. -/
theorem CopiesTo.survives {before after : Objects σ} {results : List CopyResult} {i : ℕ}
    {item : Str × Str} {result : CopyResult}
    (h : CopiesTo call bucketErrors before after results)
    (hitem : call.items[i]? = some item) (hresult : results[i]? = some result)
    (hself : ∀ item' ∈ call.items, call.destOf item' = call.sourceOf item →
      call.destOf item' = call.destOf item)
    (halone : call.Alone item) (hsuccess : result.success = true) :
    call.Survives before after item result := by
  obtain ⟨_, p, hrun, rfl, hdone⟩ := h
  have hstart : Holds (CopyInvariant call before (call.sourceOf item) (call.destOf item))
      (CopyAssertion call before (call.sourceOf item) (call.destOf item)) (CopyStart before) :=
    ⟨⟨rfl, .inl rfl, fun _ _ ↦ rfl⟩, fun _ _ _ _ ↦ trivial⟩
  obtain ⟨hinv, hassert⟩ := (copyStable hself halone).reachable hstart hrun
  have hfinal := hassert i item hitem rfl
  rw [hdone i result hresult] at hfinal
  have hdelivered : Delivered before (call.sourceOf item) (call.destOf item) p.shared.objects →
      ∃ obj, p.shared.objects (call.destOf item) = some obj ∧
        ∃ source, p.shared.objects (call.sourceOf item) = some source ∧
          obj.bytes = source.bytes := by
    rintro ⟨o, obj, ho, hobj, hbytes⟩
    have hreadable := hinv.readable
    rw [ho, Option.map_some, Option.map_eq_some_iff] at hreadable
    obtain ⟨source, hsource, hsame⟩ := hreadable
    exact ⟨obj, hobj, source, hsource, hbytes.trans hsame.symm⟩
  rcases hfinal with ⟨rfl, hput⟩ | ⟨rfl, _, hthere⟩ | ⟨e, rfl⟩
  · obtain ⟨obj, hobj, hsource⟩ := hdelivered hput
    exact ⟨obj, hobj, .inr hsource⟩
  · obtain ⟨obj, hobj⟩ := Option.ne_none_iff_exists'.mp hthere
    rcases hinv.filled with hsame | hput
    · exact ⟨obj, hobj, .inl ⟨rfl, hsame.symm.trans hobj⟩⟩
    · obtain ⟨obj', hobj', hsource⟩ := hdelivered hput
      exact ⟨obj', hobj', .inr hsource⟩
  · exact absurd hsuccess Bool.false_ne_true

omit [DecidableEq σ] in
theorem copyCallOf_destOf_eq {store : Str → σ} {body : CopyBody} {item item' : Str × Str}
    (h : (copyCallOf store body).destOf item' = (copyCallOf store body).sourceOf item) :
    (copyCallOf store body).destOf item' = (copyCallOf store body).destOf item := by
  obtain ⟨_, hbucket, hkey⟩ := Location.mk.inj h
  have hsame : (copyCallOf store body).resolveDestBucket item' =
      (copyCallOf store body).resolveDestBucket item := by
    cases hdest : body.destBucket with
    | none => simpa [CopyCall.resolveDestBucket, copyCallOf, hdest] using hbucket
    | some dest =>
        cases dest with
        | nil => simpa [CopyCall.resolveDestBucket, copyCallOf, hdest] using hbucket
        | cons c s => simp [CopyCall.resolveDestBucket, copyCallOf, hdest]
  unfold CopyCall.destOf
  rw [hsame]
  exact congrArg _ hkey

theorem CopiesTo.result_eq {before after : Objects σ} {results : List CopyResult} {i : ℕ}
    {item : Str × Str} {result : CopyResult}
    (h : CopiesTo call bucketErrors before after results)
    (hitem : call.items[i]? = some item) (hresult : results[i]? = some result) :
    ∃ success skipped error, result = call.outcome item success skipped error := by
  have hstable : Stable (copyAction call bucketErrors) (fun _ ↦ True) fun j _ t ↦
      ∀ item, call.items[j]? = some item → ∀ result, t = .done result →
        ∃ success skipped error, result = call.outcome item success skipped error := by
    refine ⟨fun _ _ _ ↦ trivial, ?_, fun _ _ _ _ hdone ↦ hdone⟩
    rintro j s t s' t' ⟨item, hitem, hact⟩ _ _ item' hitem' result rfl
    obtain rfl := Option.some.inj (hitem.symm.trans hitem')
    cases hact <;> exact ⟨_, _, _, rfl⟩
  obtain ⟨_, p, hrun, _, hdone⟩ := h
  have hstart : ∀ (j : ℕ) (item : Str × Str), call.items[j]? = some item → ∀ result : CopyResult,
      CopyStatus.waiting = .done result →
        ∃ success skipped error, result = call.outcome item success skipped error :=
    fun _ _ _ _ hwaiting ↦ nomatch hwaiting
  exact (hstable.reachable ⟨trivial, hstart⟩ hrun).2 i item hitem result (hdone i result hresult)

/-- A success whose destination no other source is copied to has the bytes of its
source there, or was skipped over an object from before; and whatever the report
allows to be deleted is the source of an item that succeeded. -/
theorem copied_survives {store : Str → σ} {body : CopyBody} {before after : Objects σ}
    {results : List CopyResult}
    (h : CopiesTo (copyCallOf store body) bucketErrors before after results) :
    (∀ (i : ℕ) (item : CopyItem) (result : CopyResult), body.items[i]? = some item →
      results[i]? = some result → result.success = true →
      (copyCallOf store body).Alone (item.bucket, item.key) →
        (copyCallOf store body).Survives before after (item.bucket, item.key) result) ∧
    ∀ (T : Tables) (presign : Str → Str → Str → Str) (readBack : Cell → Cell)
      (details : CopyDeleteDetails), (∀ c, readBack c = c ∨ readBack c = .blank) →
      parseCopyReportForDeleteDetails T
        ((buildCopyReport presign body results).reread readBack) = .ok details →
      ∀ row ∈ details.results, ∃ (i : ℕ) (item : CopyItem) (result : CopyResult),
        body.items[i]? = some item ∧ results[i]? = some result ∧ result.success = true ∧
        row.bucket = .text item.bucket ∧ row.key = .text item.key ∧
        ((copyCallOf store body).Alone (item.bucket, item.key) →
          (copyCallOf store body).Survives before after (item.bucket, item.key) result) := by
  have hitems : ∀ (i : ℕ) (item : CopyItem), body.items[i]? = some item →
      (copyCallOf store body).items[i]? = some (item.bucket, item.key) := by
    intro i item hitem
    simp [copyCallOf, hitem]
  have hsurvives : ∀ (i : ℕ) (item : CopyItem) (result : CopyResult),
      body.items[i]? = some item → results[i]? = some result → result.success = true →
      (copyCallOf store body).Alone (item.bucket, item.key) →
        (copyCallOf store body).Survives before after (item.bucket, item.key) result :=
    fun i item result hitem hresult hsuccess halone ↦
      h.survives (hitems i item hitem) hresult (fun _ _ ↦ copyCallOf_destOf_eq) halone hsuccess
  refine ⟨hsurvives, fun T presign readBack details hread hparse row hrow ↦ ?_⟩
  obtain ⟨i, item, result, hitem, hresult, hsuccess, hbucket, hkey⟩ :=
    exists_of_mem_deletable hread hparse hrow
  obtain ⟨_, _, _, rfl⟩ := h.result_eq (hitems i item hitem) hresult
  exact ⟨i, item, _, hitem, hresult, hsuccess, hbucket, hkey,
    hsurvives i item _ hitem hresult hsuccess⟩

/-! ## One photo -/

theorem copiesTo_of_single {item : Str × Str} (hitems : call.items = [item]) {before : Objects σ}
    {s : CopyState σ} {result : CopyResult}
    (h : Relation.ReflTransGen (CopyAlone call bucketErrors item)
      (⟨before, fun _ ↦ true⟩, .waiting) (s, .done result)) :
    CopiesTo call bucketErrors before s.objects [result] := by
  have hrun : Relation.ReflTransGen (Step (copyAction call bucketErrors)) (CopyStart before)
      ⟨s, Function.update (fun _ ↦ .waiting) 0 (.done result)⟩ :=
    reaches_of_alone (by simp [hitems]) h
  refine ⟨by simp [hitems], _, hrun, rfl, fun i r hr ↦ ?_⟩
  cases i with
  | zero => exact congrArg _ (Option.some.inj hr)
  | succ i => exact nomatch hr

/-- A single item whose destination is there is skipped. -/
theorem copiesTo_of_present {item : Str × Str} (hitems : call.items = [item])
    {before : Objects σ} (hkeeps : call.overwrite = false)
    (havailable : bucketErrors (call.resolveDestBucket item) = none) {obj : StoredObject}
    (hthere : before (call.destOf item) = some obj) :
    CopiesTo call bucketErrors before before [call.skippedOutcome item] := by
  let s : CopyState σ := ⟨before, fun _ ↦ true⟩
  have hfound : CopyAlone call bucketErrors item (s, .waiting) (s, .present) :=
    .found havailable hkeeps hthere
  have hskip : CopyAlone call bucketErrors item (s, .present)
      (s, .done (call.skippedOutcome item)) := .skip
  exact copiesTo_of_single hitems (.head hfound (.single hskip))

def photoLocation (provider : Str) : Location Str := ⟨provider, "scola".toList, "a.png".toList⟩

def photoObject (bytes : List UInt8) : StoredObject := ⟨bytes, none, [], 0, none⟩

/-- The photo at the old provider, and what is in its place at the new one. -/
def photoObjects (dest : Option StoredObject) : Objects Str := fun l ↦
  if l = photoLocation "do".toList then some (photoObject [1])
  else if l = photoLocation "wasabi".toList then dest
  else none

def photoBody : CopyBody where
  items := [⟨"scola".toList, "a.png".toList, .blank, none, none, none, .blank⟩]
  sourceProvider := "do".toList
  destProvider := "wasabi".toList
  destBucket := none
  overwrite := false
  makePublic := true

def photoCall : CopyCall Str := copyCallOf id photoBody

def photoResult (skipped : Bool) : CopyResult :=
  ⟨"scola".toList, "a.png".toList, "scola".toList, "a.png".toList, true, skipped, none⟩

def photoItem : Str × Str := ("scola".toList, "a.png".toList)

theorem photoCall_copiesTo : CopiesTo photoCall (fun _ ↦ none) (photoObjects none)
    (Function.update (photoObjects none) (photoLocation "wasabi".toList)
      (some (photoObject [1]))) [photoResult false] := by
  let s : CopyState Str := ⟨photoObjects none, fun _ ↦ true⟩
  have hhead : CopyAlone photoCall (fun _ ↦ none) photoItem (s, .waiting) (s, .transfer) :=
    .notFound rfl rfl rfl
  have hget : CopyAlone photoCall (fun _ ↦ none) photoItem (s, .transfer)
      (s, .fetched (photoObject [1]) true) := .get rfl
  have hupload : CopyAlone photoCall (fun _ ↦ none) photoItem
      (s, .fetched (photoObject [1]) true)
      (s.put (photoLocation "wasabi".toList) (photoObject [1]), .done (photoResult false)) :=
    .upload ⟨rfl, fun h ↦ absurd rfl h⟩
  exact copiesTo_of_single rfl (.head hhead (.head hget (.single hupload)))

theorem photoCall_skips : CopiesTo photoCall (fun _ ↦ none) (photoObjects (some (photoObject [2])))
    (photoObjects (some (photoObject [2]))) [photoResult true] := by
  have hthere : photoObjects (some (photoObject [2])) (photoCall.destOf photoItem) =
      some (photoObject [2]) := rfl
  exact copiesTo_of_present rfl rfl rfl hthere

theorem copied_survives_photo :
    (∀ (i : ℕ) (item : CopyItem) (result : CopyResult), photoBody.items[i]? = some item →
      [photoResult false][i]? = some result → result.success = true →
      (copyCallOf id photoBody).Alone (item.bucket, item.key) →
        (copyCallOf id photoBody).Survives (photoObjects none)
          (Function.update (photoObjects none) (photoLocation "wasabi".toList)
            (some (photoObject [1]))) (item.bucket, item.key) result) ∧
    ∀ (T : Tables) (presign : Str → Str → Str → Str) (readBack : Cell → Cell)
      (details : CopyDeleteDetails), (∀ c, readBack c = c ∨ readBack c = .blank) →
      parseCopyReportForDeleteDetails T
        ((buildCopyReport presign photoBody [photoResult false]).reread readBack) = .ok details →
      ∀ row ∈ details.results, ∃ (i : ℕ) (item : CopyItem) (result : CopyResult),
        photoBody.items[i]? = some item ∧ [photoResult false][i]? = some result ∧
        result.success = true ∧
        row.bucket = .text item.bucket ∧ row.key = .text item.key ∧
        ((copyCallOf id photoBody).Alone (item.bucket, item.key) →
          (copyCallOf id photoBody).Survives (photoObjects none)
            (Function.update (photoObjects none) (photoLocation "wasabi".toList)
              (some (photoObject [1]))) (item.bucket, item.key) result) :=
  copied_survives photoCall_copiesTo

/-- The skipped photo is not the one at the old provider. -/
theorem skipped_other_bytes :
    ¬∀ (body : CopyBody) (bucketErrors : Str → Option Str) (before after : Objects Str)
      (results : List CopyResult), validateCopyBody body = .ok () →
      CopiesTo (copyCallOf id body) bucketErrors before after results →
      ∀ (i : ℕ) (item : CopyItem) (result : CopyResult), body.items[i]? = some item →
        results[i]? = some result → result.success = true →
        ∃ obj source, after ⟨body.destProvider, result.destBucket, result.destKey⟩ = some obj ∧
          after ⟨body.sourceProvider, item.bucket, item.key⟩ = some source ∧
          obj.bytes = source.bytes := by
  intro h
  obtain ⟨obj, source, hobj, hsource, hbytes⟩ := h photoBody (fun _ ↦ none) _ _ _ (by decide)
    photoCall_skips 0 _ _ rfl rfl rfl
  have hdest : photoObjects (some (photoObject [2])) (photoLocation "wasabi".toList) =
      some (photoObject [2]) := by decide
  have hold : photoObjects (some (photoObject [2])) (photoLocation "do".toList) =
      some (photoObject [1]) := by decide
  obtain rfl := Option.some.inj (hdest.symm.trans hobj)
  obtain rfl := Option.some.inj (hold.symm.trans hsource)
  exact absurd hbytes (by decide)

end StorageReconciler
