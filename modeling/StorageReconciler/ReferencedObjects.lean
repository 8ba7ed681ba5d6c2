import StorageReconciler.BucketAddress
import StorageReconciler.Reconciliation

/-!
# Referenced objects

A row that names a listed object, by its key or by its address, keeps the object
out of the orphans and is itself not reported missing.
-/

namespace StorageReconciler

open Strings UrlSplit PercentCoding

variable {κ : Type*}

/-- The key is read as it stands when a column holds it bare. -/
def ReadsBare (T : Tables) (k : Str) : Prop :=
  strip k = k ∧ (startsWithHttp T k = true → urlparse T k = none)

/-- The address of an object below the base URL of the bucket, the key in any
percent-encoding that keeps the safe characters or not, and a query or nothing after it. -/
def IsObjectUrl (T : Tables) (env : Env) (providerKey : Option Str) (bucket k value : Str) : Prop :=
  ∃ x query, Spells (isQuoteSafe · = true) x k ∧
    (query = [] ∨ query.head? = some '?') ∧ (∀ c ∈ query, isSpace c = false) ∧
    value = buildBucketUrl T env providerKey bucket ++ '/' :: (x ++ query)

/-- The missing file was reported for this row. -/
def MissingFrom (m : MissingFile κ) (ref : DbFileReference κ) : Prop :=
  m.table = ref.table ∧ m.column = ref.column ∧ m.id = ref.id ∧ m.rawValue = some ref.value

theorem splitObjectReference_readsBare {T : Tables} (env : Env) {k : Str} (hk : ReadsBare T k)
    (hhead : k.head? ≠ some '/') : splitObjectReference T env k = ⟨none, k, none⟩ := by
  obtain ⟨hstrip, hparse⟩ := hk
  unfold splitObjectReference
  simp only [hstrip, lstripChar_eq_self hhead]
  cases hhttp : startsWithHttp T k with
  | false => rfl
  | true => simp [hparse hhttp]

section Named

variable {T : Tables} {env : Env} {request : ReconciliationRequest} {buckets : List Str}
  {data : ScanData κ} {ref : DbFileReference κ} {k : Str}

/-- A listed key that some row in scope names is neither orphaned nor protected,
and no row with this value is missing. -/
theorem listed_of_named (href : ref ∈ data.mappingResults.flatten)
    (hscope : inScope T env (effectiveProvider env request) buckets ref = true)
    (hkey : keyOf T env ref = k) (hlisted : ∃ obj ∈ data.bucketResults.flatten, obj.key = k) :
    (∀ o ∈ (reconcile T env request buckets data).orphan, o.path ≠ k) ∧
      (∀ o ∈ (reconcile T env request buckets data).protected, o.path ≠ k) ∧
      ∀ m ∈ (reconcile T env request buckets data).missing, ¬MissingFrom m ref := by
  subst hkey
  refine ⟨orphan_path_ne href hscope, ?_, ?_⟩
  · intro o ho hpath
    obtain ⟨k, obj, _, hnone, _, rfl⟩ := mem_protected.mp ho
    obtain rfl : k = keyOf T env ref := hpath
    exact firstReference_ne_none href hscope hnone
  · rintro m hm ⟨_, _, _, hraw⟩
    obtain ⟨first, hmfirst, hunlisted, _, _, _, hmraw⟩ := mem_missing hm
    -- the reported path is the key of the row's value, and that key is listed
    have hvalue : first.value = ref.value := Option.some.inj (hmraw.symm.trans hraw)
    have hpath : m.path = keyOf T env ref := by
      have hsome := List.find?_some hmfirst
      rw [Bool.and_eq_true, decide_eq_true_eq] at hsome
      rw [← hsome.2, keyOf, keyOf, hvalue]
    obtain ⟨obj, hobj, hobjkey⟩ := hlisted
    have hnot := List.find?_eq_none.mp hunlisted obj (List.mem_reverse.mpr hobj)
    exact hnot (by simp [hobjkey, hpath])

end Named

theorem inScope_of_split {T : Tables} {env : Env} {effective : Option Str} {buckets : List Str}
    {ref : DbFileReference κ} {r : ObjectReference}
    (hsplit : splitObjectReference T env ref.value = r)
    (hbucket : ∀ b, r.bucket = some b → b ∈ buckets)
    (hhint : ∀ p, r.providerHint = some p → effective = some p) :
    inScope T env effective buckets ref = true := by
  obtain ⟨bucket, key, hint⟩ := r
  rw [inScope, hsplit]
  have hprovider : isDifferentProvider effective hint = false := by
    cases hint with
    | none => rfl
    | some p => simp [isDifferentProvider, hhint p rfl]
  have hother : isOtherBucket buckets bucket = false := by
    cases bucket with
    | none => rfl
    | some b => simpa [isOtherBucket] using hbucket b rfl
  simp [hprovider, hother]

theorem Env.key_of_provider? {env : Env} {key : Option Str} {config : S3ProviderConfig}
    (h : env.provider? key = some config) : key = some config.key := by
  unfold Env.provider? at h
  split at h
  · exact absurd h (by simp)
  · exact absurd h (by simp)
  · have hkey := List.find?_some h
    rw [decide_eq_true_eq] at hkey
    rw [hkey]

/-- In a run over one bucket, a row holding the key or the address of a listed
object keeps it out of the orphans and the protected objects, and is not missing. -/
theorem referenced_object_not_orphan {T : Tables} {env : Env} {request : ReconciliationRequest}
    {config : S3ProviderConfig} {bucket k : Str} {data : ScanData κ} {ref : DbFileReference κ}
    (hconfig : env.provider? (effectiveProvider env request) = some config)
    (hk : k.head? ≠ some '/') (hlisted : ∃ obj ∈ data.bucketResults.flatten, obj.key = k)
    (href : ref ∈ data.mappingResults.flatten)
    (hvalue : ref.value = k ∧ ReadsBare T k ∨
      LeadsBack env config bucket ∧ IsObjectUrl T env request.provider bucket k ref.value) :
    (∀ o ∈ (reconcile T env request [bucket] data).orphan, o.path ≠ k) ∧
      (∀ o ∈ (reconcile T env request [bucket] data).protected, o.path ≠ k) ∧
      ∀ m ∈ (reconcile T env request [bucket] data).missing, ¬MissingFrom m ref := by
  have hsplit : ∃ b p, splitObjectReference T env ref.value = ⟨b, k, p⟩ ∧
      (∀ b', b = some b' → b' ∈ [bucket]) ∧
      ∀ p', p = some p' → effectiveProvider env request = some p' := by
    rcases hvalue with ⟨hbare, hreads⟩ | ⟨hback, x, query, hx, hquery, hspace, hurl⟩
    · rw [hbare]
      exact ⟨none, none, splitObjectReference_readsBare env hreads hk, by simp, by simp⟩
    · have htail : ∀ c, query.head? = some c → c = '?' ∨ c = '#' := by
        intro c hc
        rcases hquery with rfl | hquery
        · exact absurd hc (by simp)
        · exact .inl (Option.some.inj (hc.symm.trans hquery))
      rw [hurl]
      refine ⟨_, _, splitObjectReference_bucketUrl hconfig hback hk hx htail hspace, ?_, ?_⟩
      · rintro b' ⟨rfl⟩
        exact List.mem_singleton.mpr rfl
      · rintro p' ⟨rfl⟩
        exact Env.key_of_provider? hconfig
  obtain ⟨b, p, hsplit, hbucket, hhint⟩ := hsplit
  have hscope : inScope T env (effectiveProvider env request) [bucket] ref = true :=
    inScope_of_split hsplit hbucket hhint
  exact listed_of_named href hscope (by rw [keyOf, hsplit]) hlisted

theorem referenced_object_not_orphan_tag :
    (∀ o ∈ (reconcile Tables.ascii sgp1Env (photoRequest "scola".toList) ["scola".toList]
        (photoReads "scola".toList "a b.png".toList
          "https://sgp1.digitaloceanspaces.com/scola/a%20b.png?v=2".toList)).orphan,
      o.path ≠ "a b.png".toList) ∧
    (∀ o ∈ (reconcile Tables.ascii sgp1Env (photoRequest "scola".toList) ["scola".toList]
        (photoReads "scola".toList "a b.png".toList
          "https://sgp1.digitaloceanspaces.com/scola/a%20b.png?v=2".toList)).protected,
      o.path ≠ "a b.png".toList) ∧
    ∀ m ∈ (reconcile Tables.ascii sgp1Env (photoRequest "scola".toList) ["scola".toList]
        (photoReads "scola".toList "a b.png".toList
          "https://sgp1.digitaloceanspaces.com/scola/a%20b.png?v=2".toList)).missing,
      ¬MissingFrom m
        (photoRow "https://sgp1.digitaloceanspaces.com/scola/a%20b.png?v=2".toList) := by
  have hback : LeadsBack sgp1Env sgp1Provider "scola".toList := by
    refine ⟨⟨by decide, by decide⟩, by decide, fun h ↦ absurd h (by decide),
      fun h ↦ absurd h (Option.some_ne_none sgp1Endpoint),
      fun h ↦ absurd h (Option.some_ne_none sgp1Endpoint)⟩
  have hurl : IsObjectUrl Tables.ascii sgp1Env none "scola".toList "a b.png".toList
      "https://sgp1.digitaloceanspaces.com/scola/a%20b.png?v=2".toList :=
    ⟨quote "a b.png".toList, "?v=2".toList, spells_quote _, .inr (by decide), by decide,
      by decide⟩
  have hconfig : sgp1Env.provider? (effectiveProvider sgp1Env (photoRequest "scola".toList)) =
      some sgp1Provider := by decide
  exact referenced_object_not_orphan hconfig
    (by decide) ⟨⟨"scola".toList, "a b.png".toList, 5, none, none⟩, by decide, rfl⟩
    (by decide) (.inr ⟨hback, hurl⟩)

/-! ## Rows that do not protect their object -/

/-- The canonical address of an object at the default provider. -/
def objectUrl (env : Env) (bucket key : Str) : Str :=
  buildBucketUrl Tables.ascii env none bucket ++ '/' :: quote key

/-- The one listed object is an orphan, whatever the one row says. -/
def IsOrphaned (env : Env) (bucket key value : Str) : Prop :=
  ∃ o ∈ (reconcile Tables.ascii env (photoRequest bucket) [bucket]
    (photoReads bucket key value)).orphan, o.bucket = bucket ∧ o.path = key

instance (env : Env) (bucket key value : Str) : Decidable (IsOrphaned env bucket key value) :=
  inferInstanceAs (Decidable (∃ o ∈ _, _))

def soleProviderEnv (config : S3ProviderConfig)
    (hkey : config.endpoint = none → config.key = awsProviderHint) : Env where
  s3Providers := [config]
  s3DefaultProviderKey := some config.key
  nodup := by simp
  default_mem := by
    rintro k ⟨rfl⟩
    exact List.mem_singleton.mpr rfl
  endpoint_eq_none := by
    intro p hp hend
    obtain rfl := List.mem_singleton.mp hp
    exact hkey hend

/-- Singapore with the bucket in the host. -/
def sgp1VirtualEnv : Env :=
  soleProviderEnv { sgp1Provider with forcePathStyle := false } fun h ↦
    absurd h (Option.some_ne_none sgp1Endpoint)

def awsProvider : S3ProviderConfig where
  key := "aws".toList
  region := "us-east-1".toList
  endpoint := none
  forcePathStyle := false
  region_ne_nil := by decide
  isRegionLabel := by decide

def awsEnv : Env := soleProviderEnv awsProvider fun _ ↦ rfl

def spacesEndpoint : Endpoint where
  scheme := "https".toList
  netloc := "digitaloceanspaces.com".toList
  isHttpScheme := isHttpScheme_https
  netloc_ne_nil := by decide
  isHostChar := by decide

/-- The entry for AWS points at the domain that Singapore is a part of. -/
def sharedDomainEnv : Env where
  s3Providers :=
    [{ awsProvider with endpoint := some spacesEndpoint }, sgp1Provider]
  s3DefaultProviderKey := some "do-sgp1".toList
  nodup := by decide
  default_mem := by
    rintro k ⟨rfl⟩
    decide
  endpoint_eq_none := by
    intro p hp hend
    simp only [List.mem_cons, List.not_mem_nil, or_false] at hp
    rcases hp with rfl | rfl
    · exact absurd hend (Option.some_ne_none spacesEndpoint)
    · exact absurd hend (Option.some_ne_none sgp1Endpoint)

/-- A row does not protect its object when the key begins with a slash, or, bare,
with a space or like a web address, nor when the base URL of the bucket is read as
that of another bucket or provider. -/
theorem referenced_object_orphaned :
    IsOrphaned sgp1Env "scola".toList "/a.png".toList "/a.png".toList ∧
    IsOrphaned sgp1Env "scola".toList "/a.png".toList
      (objectUrl sgp1Env "scola".toList "/a.png".toList) ∧
    IsOrphaned sgp1Env "scola".toList " a.png".toList " a.png".toList ∧
    IsOrphaned sgp1Env "scola".toList "http://b/a.png".toList "http://b/a.png".toList ∧
    IsOrphaned sgp1VirtualEnv "Scola".toList "a.png".toList
      (objectUrl sgp1VirtualEnv "Scola".toList "a.png".toList) ∧
    IsOrphaned awsEnv "logs.s3".toList "a.png".toList
      (objectUrl awsEnv "logs.s3".toList "a.png".toList) ∧
    IsOrphaned awsEnv "logs.".toList "a.png".toList
      (objectUrl awsEnv "logs.".toList "a.png".toList) ∧
    IsOrphaned sharedDomainEnv "scola".toList "a.png".toList
      (objectUrl sharedDomainEnv "scola".toList "a.png".toList) := by
  refine ⟨?_, ?_, ?_, ?_, ?_, ?_, ?_, ?_⟩ <;> decide

end StorageReconciler
