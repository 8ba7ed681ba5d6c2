import StorageReconciler.Fetching

/-!
# Runs in which some reads fail

A read that fails is classified as if it had found nothing.  Whether the result
then still errs on the safe side depends on what the failed reads would have
said about the keys that the remaining ones leave open.
-/

namespace StorageReconciler

open Strings

variable {κ : Type*}

/-- The mappings, buckets and rich-text columns that fail after all retries. -/
structure Failures where
  mappings : Finset ℕ
  buckets : Finset ℕ
  content : Finset ℕ

def Failures.none : Failures := ⟨∅, ∅, ∅⟩

/-- Exactly the items of `F` fail, and the others deliver their part of `reads`. -/
structure FetchAttempts.Delivers (a : FetchAttempts κ) (F : Failures) (reads : ScanData κ) :
    Prop where
  mappings : StorageReconciler.Delivers F.mappings a.mappings reads.mappingResults
  buckets : StorageReconciler.Delivers F.buckets a.buckets reads.bucketResults
  content : Option.Rel (StorageReconciler.Delivers F.content) a.content reads.contentResults

/-- What the run classifies when exactly `F` fails. -/
def ScanData.without (reads : ScanData κ) (F : Failures) : ScanData κ where
  mappingResults := withhold F.mappings [] reads.mappingResults
  bucketResults := withhold F.buckets [] reads.bucketResults
  contentResults := reads.contentResults.map (withhold F.content (∅, 0))

theorem FetchAttempts.Delivers.scan_eq {a : FetchAttempts κ} {F : Failures} {reads : ScanData κ}
    (h : a.Delivers F reads) : a.scan = reads.without F := by
  have hmappings := h.mappings.map_work [] some
  have hbuckets := h.buckets.map_work [] bucketError
  have hcontent : a.content.map (fun fns ↦
      fns.map fun fn ↦ (contentWork Option.none (withRetries fn) (.ok ())).value) =
      reads.contentResults.map (withhold F.content (∅, 0)) := by
    have hrel := h.content
    generalize a.content = attempts, reads.contentResults = results at hrel
    cases hrel with
    | none => rfl
    | some hitems => exact congrArg some (hitems.map_work (∅, 0) some)
  simp only [FetchAttempts.scan, ScanData.without, mappingWork, bucketWork, hmappings, hbuckets,
    hcontent]

theorem ScanData.without_none (reads : ScanData κ) : reads.without Failures.none = reads := by
  obtain ⟨mappingResults, bucketResults, contentResults⟩ := reads
  cases contentResults <;> simp [ScanData.without, Failures.none, withhold_empty]

/-! ## What single reads say about a key -/

/-- A reference in scope names the key. -/
def Refers (T : Tables) (env : Env) (request : ReconciliationRequest) (buckets : List Str)
    (refs : List (DbFileReference κ)) (k : Str) : Prop :=
  ∃ ref ∈ refs, inScope T env (effectiveProvider env request) buckets ref = true ∧
    keyOf T env ref = k

def Lists (objs : List StorageObject) (k : Str) : Prop := ∃ obj ∈ objs, obj.key = k

section Condition

variable (T : Tables) (env : Env) (request : ReconciliationRequest) (buckets : List Str)
  (F : Failures) (reads : ScanData κ)

/-- The remaining reads list the key and find no use of it. -/
structure IsCandidate (k : Str) : Prop where
  listed : ∃ i ∉ F.buckets, ∃ objs, reads.bucketResults[i]? = some objs ∧ Lists objs k
  unreferenced : ∀ i ∉ F.mappings, ∀ refs, reads.mappingResults[i]? = some refs →
    ¬Refers T env request buckets refs k
  unembedded : ∀ results ∈ reads.contentResults, ∀ i ∉ F.content, ∀ r, results[i]? = some r →
    k ∉ r.1

/-- The failed reads would have changed nothing about the keys left open. -/
structure FailsQuietly : Prop where
  unreferenced : ∀ k, IsCandidate T env request buckets F reads k →
    ∀ i ∈ F.mappings, ∀ refs, reads.mappingResults[i]? = some refs →
      ¬Refers T env request buckets refs k
  unembedded : ∀ k, IsCandidate T env request buckets F reads k →
    ∀ results ∈ reads.contentResults, ∀ i ∈ F.content, ∀ r, results[i]? = some r → k ∉ r.1
  sameListing : ∀ k, IsCandidate T env request buckets F reads k →
    (lastListing reads.bucketResults k).map (orphanOf k) =
      (lastListing (withhold F.buckets [] reads.bucketResults) k).map (orphanOf k)
  unlisted : ∀ k, (∃ i ∉ F.mappings, ∃ refs, reads.mappingResults[i]? = some refs ∧
      Refers T env request buckets refs k) →
    (∀ i ∉ F.buckets, ∀ objs, reads.bucketResults[i]? = some objs → ¬Lists objs k) →
    ∀ i ∈ F.buckets, ∀ objs, reads.bucketResults[i]? = some objs → ¬Lists objs k

end Condition

/-- No orphan and no missing path of the first result is new against the second. -/
def IsConservative (r r' : ReconciliationResult κ) : Prop :=
  (∀ o ∈ r.orphan, o ∈ r'.orphan) ∧
    ∀ k ∈ r.missing.map MissingFile.path, k ∈ r'.missing.map MissingFile.path

section Lookup

variable {T : Tables} {env : Env} {request : ReconciliationRequest} {buckets : List Str}
  {F : Failures} {reads : ScanData κ}

theorem firstReference_eq_none_iff {mappingResults : List (List (DbFileReference κ))} {k : Str} :
    firstReference T env request buckets mappingResults k = none ↔
      ∀ refs ∈ mappingResults, ¬Refers T env request buckets refs k := by
  rw [firstReference, List.find?_eq_none]
  simp only [List.mem_flatten, Bool.and_eq_true, decide_eq_true_eq, Refers, not_exists, not_and]
  constructor
  · exact fun h refs hrefs ref href ↦ h ref ⟨refs, hrefs, href⟩
  · rintro h ref ⟨refs, hrefs, href⟩
    exact h refs hrefs ref href

theorem lastListing_eq_none_iff {bucketResults : List (List StorageObject)} {k : Str} :
    lastListing bucketResults k = none ↔ ∀ objs ∈ bucketResults, ¬Lists objs k := by
  rw [lastListing, List.find?_eq_none]
  simp only [List.mem_reverse, List.mem_flatten, decide_eq_true_eq, Lists, not_exists, not_and]
  constructor
  · exact fun h objs hobjs obj hobj ↦ h obj ⟨objs, hobjs, hobj⟩
  · rintro h obj ⟨objs, hobjs, hobj⟩
    exact h objs hobjs obj hobj

theorem lastListing_withhold_eq_none_iff {k : Str} :
    lastListing (withhold F.buckets [] reads.bucketResults) k = none ↔
      ∀ i ∉ F.buckets, ∀ objs, reads.bucketResults[i]? = some objs → ¬Lists objs k := by
  rw [lastListing_eq_none_iff]
  simp only [mem_withhold]
  constructor
  · exact fun h i hi objs hobjs ↦ h objs (.inl ⟨i, hi, hobjs⟩)
  · rintro h objs (⟨i, hi, hobjs⟩ | ⟨_, _, _, rfl⟩)
    · exact h i hi objs hobjs
    · rintro ⟨obj, hobj, _⟩
      simp at hobj

theorem firstReference_withhold_eq_none_iff {k : Str} :
    firstReference T env request buckets (withhold F.mappings [] reads.mappingResults) k = none ↔
      ∀ i ∉ F.mappings, ∀ refs, reads.mappingResults[i]? = some refs →
        ¬Refers T env request buckets refs k := by
  rw [firstReference_eq_none_iff]
  simp only [mem_withhold]
  constructor
  · exact fun h i hi refs hrefs ↦ h refs (.inl ⟨i, hi, hrefs⟩)
  · rintro h refs (⟨i, hi, hrefs⟩ | ⟨_, _, _, rfl⟩)
    · exact h i hi refs hrefs
    · rintro ⟨ref, href, _⟩
      simp at href

theorem isEmbedded_withhold_iff {k : Str} :
    IsEmbedded (reads.contentResults.map (withhold F.content (∅, 0))) k ↔
      ∃ results ∈ reads.contentResults, ∃ i ∉ F.content, ∃ r, results[i]? = some r ∧ k ∈ r.1 := by
  cases reads.contentResults with
  | none => simp [IsEmbedded]
  | some results =>
      simp only [IsEmbedded, Option.map_some, Option.mem_def, Option.some.injEq, exists_eq_left',
        mem_withhold]
      constructor
      · rintro ⟨r, ⟨i, hi, hr⟩ | ⟨_, _, _, rfl⟩, hk⟩
        · exact ⟨i, hi, r, hr, hk⟩
        · simp at hk
      · rintro ⟨i, hi, r, hr, hk⟩
        exact ⟨r, .inl ⟨i, hi, hr⟩, hk⟩

/-- The orphans of a partial run are the candidates, each with its last listing. -/
theorem mem_orphan_without {o : OrphanFile} :
    o ∈ (reconcile T env request buckets (reads.without F)).orphan ↔
      ∃ k, IsCandidate T env request buckets F reads k ∧
        (lastListing (withhold F.buckets [] reads.bucketResults) k).map (orphanOf k) = some o := by
  rw [mem_orphan]
  simp only [ScanData.without, isEmbedded_withhold_iff, firstReference_withhold_eq_none_iff]
  constructor
  · rintro ⟨k, obj, hobj, href, hcontent, rfl⟩
    refine ⟨k, ⟨?_, href, ?_⟩, by rw [hobj]; rfl⟩
    · by_contra hno
      have hnone : lastListing (withhold F.buckets [] reads.bucketResults) k = none := by
        rw [lastListing_withhold_eq_none_iff]
        exact fun i hi objs hobjs hlists ↦ hno ⟨i, hi, objs, hobjs, hlists⟩
      simp [hnone] at hobj
    · exact fun results hresults i hi r hr hk ↦ hcontent ⟨results, hresults, i, hi, r, hr, hk⟩
  · rintro ⟨k, hk, ho⟩
    obtain ⟨obj, hobj, rfl⟩ := Option.map_eq_some_iff.mp ho
    refine ⟨k, obj, hobj, hk.unreferenced, ?_, rfl⟩
    rintro ⟨results, hresults, i, hi, r, hr, hmem⟩
    exact hk.unembedded results hresults i hi r hr hmem

theorem FailsQuietly.isConservative (h : FailsQuietly T env request buckets F reads) :
    IsConservative (reconcile T env request buckets (reads.without F))
      (reconcile T env request buckets reads) := by
  constructor
  · intro o ho
    obtain ⟨k, hk, hlast⟩ := mem_orphan_without.mp ho
    rw [← h.sameListing k hk] at hlast
    obtain ⟨obj, hobj, rfl⟩ := Option.map_eq_some_iff.mp hlast
    refine mem_orphan.mpr ⟨k, obj, hobj, firstReference_eq_none_iff.mpr ?_, ?_, rfl⟩
    · intro refs hrefs
      obtain ⟨i, hi⟩ := List.mem_iff_getElem?.mp hrefs
      by_cases hfail : i ∈ F.mappings
      · exact h.unreferenced k hk i hfail refs hi
      · exact hk.unreferenced i hfail refs hi
    · rintro ⟨results, hresults, r, hr, hmem⟩
      obtain ⟨i, hi⟩ := List.mem_iff_getElem?.mp hr
      by_cases hfail : i ∈ F.content
      · exact h.unembedded k hk results hresults i hfail r hi hmem
      · exact hk.unembedded results hresults i hfail r hi hmem
  · intro k hk
    obtain ⟨href, hlast⟩ := mem_missing_paths.mp hk
    have hlisted := lastListing_withhold_eq_none_iff.mp hlast
    have hexists : ∃ i ∉ F.mappings, ∃ refs, reads.mappingResults[i]? = some refs ∧
        Refers T env request buckets refs k := by
      by_contra hno
      have hnone : firstReference T env request buckets
          (withhold F.mappings [] reads.mappingResults) k = none :=
        firstReference_withhold_eq_none_iff.mpr fun i hi refs hrefs hrefers ↦
          hno ⟨i, hi, refs, hrefs, hrefers⟩
      simp [ScanData.without, hnone] at href
    refine mem_missing_paths.mpr ⟨?_, lastListing_eq_none_iff.mpr ?_⟩
    · obtain ⟨i, _, refs, hrefs, hrefers⟩ := hexists
      rw [Option.isSome_iff_ne_none]
      intro hnone
      exact firstReference_eq_none_iff.mp hnone refs (List.mem_of_getElem? hrefs) hrefers
    · intro objs hobjs
      obtain ⟨i, hi⟩ := List.mem_iff_getElem?.mp hobjs
      by_cases hfail : i ∈ F.buckets
      · exact h.unlisted k hexists hlisted i hfail objs hi
      · exact hlisted i hfail objs hi

theorem IsConservative.failsQuietly
    (h : IsConservative (reconcile T env request buckets (reads.without F))
      (reconcile T env request buckets reads)) :
    FailsQuietly T env request buckets F reads := by
  -- a candidate is an orphan of the partial run, hence one of the full run
  have horphan : ∀ k, IsCandidate T env request buckets F reads k →
      (lastListing reads.bucketResults k).map (orphanOf k) =
        (lastListing (withhold F.buckets [] reads.bucketResults) k).map (orphanOf k) ∧
      firstReference T env request buckets reads.mappingResults k = none ∧
      ¬IsEmbedded reads.contentResults k := by
    intro k hk
    obtain ⟨i, hi, objs, hobjs, hlists⟩ := hk.listed
    obtain ⟨obj, hobj⟩ : ∃ obj,
        lastListing (withhold F.buckets [] reads.bucketResults) k = some obj := by
      rw [← Option.ne_none_iff_exists']
      exact fun hnone ↦ lastListing_withhold_eq_none_iff.mp hnone i hi objs hobjs hlists
    have ho := h.1 _ (mem_orphan_without.mpr ⟨k, hk, by rw [hobj]; rfl⟩)
    obtain ⟨k', obj', hobj', href, hcontent, heq⟩ := mem_orphan.mp ho
    obtain rfl : k' = k := congrArg OrphanFile.path heq
    refine ⟨?_, href, hcontent⟩
    rw [hobj, hobj']
    exact congrArg some heq
  constructor
  · intro k hk i _ refs hrefs
    exact firstReference_eq_none_iff.mp (horphan k hk).2.1 refs (List.mem_of_getElem? hrefs)
  · intro k hk results hresults i _ r hr hmem
    exact (horphan k hk).2.2 ⟨results, hresults, r, List.mem_of_getElem? hr, hmem⟩
  · exact fun k hk ↦ (horphan k hk).1
  · rintro k ⟨i, hi, refs, hrefs, hrefers⟩ hlisted j _ objs hobjs
    have hmissing : k ∈ (reconcile T env request buckets (reads.without F)).missing.map
        MissingFile.path := by
      refine mem_missing_paths.mpr ⟨?_, lastListing_withhold_eq_none_iff.mpr hlisted⟩
      rw [Option.isSome_iff_ne_none]
      intro hnone
      exact firstReference_withhold_eq_none_iff.mp hnone i hi refs hrefs hrefers
    have hlast := (mem_missing_paths.mp (h.2 k hmissing)).2
    exact lastListing_eq_none_iff.mp hlast objs (List.mem_of_getElem? hobjs)

/-- A run in which exactly `F` fails stays on the safe side of the run in which
nothing fails exactly when the failed reads say nothing about the keys that the
remaining ones leave open. -/
theorem partial_failure_conservative_iff {attempts attempts' : FetchAttempts κ}
    (hfail : attempts.Delivers F reads) (hok : attempts'.Delivers Failures.none reads) :
    IsConservative (reconcile T env request buckets attempts.scan)
        (reconcile T env request buckets attempts'.scan) ↔
      FailsQuietly T env request buckets F reads := by
  rw [hfail.scan_eq, hok.scan_eq, reads.without_none]
  exact ⟨IsConservative.failsQuietly, FailsQuietly.isConservative⟩

end Lookup

/-! ## One column, one object -/

def FetchAttempts.of (F : Failures) (reads : ScanData κ) : FetchAttempts κ where
  mappings := attemptsFor F.mappings reads.mappingResults
  buckets := attemptsFor F.buckets reads.bucketResults
  content := reads.contentResults.map (attemptsFor F.content)

theorem FetchAttempts.delivers_of (F : Failures) (reads : ScanData κ) :
    (FetchAttempts.of F reads).Delivers F reads := by
  refine ⟨delivers_attemptsFor _ _, delivers_attemptsFor _ _, ?_⟩
  rw [FetchAttempts.of]
  cases reads.contentResults with
  | none => exact .none
  | some results => exact .some (delivers_attemptsFor _ _)

/-- The column holds the key of the object. -/
def photoScan : ScanData ℕ := photoReads "scola".toList "a.png".toList "a.png".toList

theorem partial_failure_conservative_iff_photo :
    IsConservative
        (reconcile Tables.ascii sgp1Env (photoRequest "scola".toList) ["scola".toList]
          (FetchAttempts.of ⟨∅, {0}, ∅⟩ photoScan).scan)
        (reconcile Tables.ascii sgp1Env (photoRequest "scola".toList) ["scola".toList]
          (FetchAttempts.of Failures.none photoScan).scan) ↔
      FailsQuietly Tables.ascii sgp1Env (photoRequest "scola".toList) ["scola".toList]
        ⟨∅, {0}, ∅⟩ photoScan :=
  partial_failure_conservative_iff (FetchAttempts.delivers_of _ _) (FetchAttempts.delivers_of _ _)

/-- The column times out, and the object it refers to becomes an orphan. -/
theorem partial_failure_new_orphan :
    ¬∀ (T : Tables) (env : Env) (request : ReconciliationRequest) (buckets : List Str)
      (F : Failures) (reads : ScanData ℕ) (attempts attempts' : FetchAttempts ℕ),
      attempts.Delivers F reads → attempts'.Delivers Failures.none reads →
      IsConservative (reconcile T env request buckets attempts.scan)
        (reconcile T env request buckets attempts'.scan) := by
  intro h
  have hconservative := h Tables.ascii sgp1Env (photoRequest "scola".toList)
    ["scola".toList] ⟨{0}, ∅, ∅⟩ photoScan
    _ _ (FetchAttempts.delivers_of _ _) (FetchAttempts.delivers_of _ _)
  have horphan := hconservative.1 ⟨"a.png".toList, "scola".toList, 5, none⟩ (by decide)
  exact absurd horphan (by decide)

end StorageReconciler
