import StorageReconciler.ReferencedObjects

/-!
# The two spellings of an address

A bucket stands in the path of an address or in its host.  A provider reads the
spelling it is configured for; the other one falls through to the host pattern
of AWS, and only an AWS endpoint can be read there.
-/

namespace StorageReconciler

open Strings UrlSplit PercentCoding

def addressUrl (scheme netloc path : Str) : Str :=
  scheme ++ ':' :: '/' :: '/' :: (netloc ++ '/' :: path)

/-- The host of the endpoint, the bucket in the path. -/
def pathSpelling (scheme : Str) (e : Endpoint) (bucket x : Str) : Str :=
  addressUrl scheme e.netloc (bucket ++ '/' :: x)

/-- The bucket in front of the host of the endpoint. -/
def hostSpelling (scheme : Str) (e : Endpoint) (bucket x : Str) : Str :=
  addressUrl scheme (bucket ++ '.' :: e.netloc) x

def Endpoint.hostLower (e : Endpoint) : Str := e.netloc.map Char.toLower

/-- The endpoint hosts are pairwise distinct, none a subdomain of another. -/
def HostsApart (env : Env) : Prop :=
  ∀ p ∈ env.s3Providers, ∀ q ∈ env.s3Providers, p ≠ q → ∀ e f, p.endpoint = some e →
    q.endpoint = some f → e.hostLower ≠ f.hostLower ∧ ¬ '.' :: e.hostLower <:+ f.hostLower

/-- Whatever is read, a row with the value is counted as one of a different provider
when another one is scanned, and nothing is missing on its account. -/
def ExcludedElsewhere (κ : Type*) (T : Tables) (env : Env) (providerKey value : Str) : Prop :=
  ∀ (request : ReconciliationRequest) (buckets : List Str) (scanned : Str)
    (before after : List (List (DbFileReference κ))) (refs refs' : List (DbFileReference κ))
    (ref : DbFileReference κ) (bucketResults : List (List StorageObject))
    (contentResults : Option (List (Finset Str × ℕ))),
    effectiveProvider env request = some scanned → scanned ≠ providerKey → ref.value = value →
    (reconcile T env request buckets ⟨before ++ (refs ++ ref :: refs') :: after, bucketResults,
        contentResults⟩).summary.differentProviderCount =
      (reconcile T env request buckets ⟨before ++ (refs ++ refs') :: after, bucketResults,
        contentResults⟩).summary.differentProviderCount + 1 ∧
    ∀ m ∈ (reconcile T env request buckets ⟨before ++ (refs ++ ref :: refs') :: after,
      bucketResults, contentResults⟩).missing, m.rawValue ≠ some value

/-- What the host pattern of AWS leaves in front of it. -/
def awsPart (host : Str) : Option Str := (beforeAwsHost host).map (rstripChar '.')

/-- The provider is AWS, and the spelling it is not configured for has a host of AWS:
its own host, with the bucket in front in the path style. -/
def ReadAsAws (config : S3ProviderConfig) (e : Endpoint) (bucket : Str) : Prop :=
  config.key = awsProviderHint ∧
    if config.forcePathStyle then awsPart (bucket ++ '.' :: e.hostLower) = some bucket
    else awsPart e.hostLower = some []

/-! ## Rows of a different provider -/

section Excluded

variable {κ : Type*} {T : Tables} {env : Env} {effective : Option Str} {buckets : List Str}

theorem differentProviderCount_indexReference (index : ReferenceIndex κ)
    (ref : DbFileReference κ) :
    (indexReference T env effective buckets index ref).differentProviderCount =
      index.differentProviderCount +
        if isDifferentProvider effective (splitObjectReference T env ref.value).providerHint
        then 1 else 0 := by
  unfold indexReference
  simp only
  split_ifs <;> rfl

theorem differentProviderCount_foldl (refs : List (DbFileReference κ)) (index : ReferenceIndex κ) :
    (refs.foldl (indexReference T env effective buckets) index).differentProviderCount =
      index.differentProviderCount + refs.countP fun ref ↦
        isDifferentProvider effective (splitObjectReference T env ref.value).providerHint := by
  induction refs generalizing index with
  | nil => rfl
  | cons ref refs ih =>
      rw [List.foldl_cons, ih, differentProviderCount_indexReference, List.countP_cons]
      omega

theorem differentProviderCount_reconcile {request : ReconciliationRequest} {data : ScanData κ} :
    (reconcile T env request buckets data).summary.differentProviderCount =
      data.mappingResults.flatten.countP fun ref ↦
        isDifferentProvider (effectiveProvider env request)
          (splitObjectReference T env ref.value).providerHint :=
  (differentProviderCount_foldl _ _).trans (Nat.zero_add _)

theorem excludedElsewhere_of_hint {providerKey value : Str}
    (h : (splitObjectReference T env value).providerHint = some providerKey) :
    ExcludedElsewhere κ T env providerKey value := by
  intro request buckets scanned before after refs refs' ref bucketResults contentResults
    hscanned hne hvalue
  subst hvalue
  have hdifferent : isDifferentProvider (effectiveProvider env request)
      (splitObjectReference T env ref.value).providerHint = true := by
    simp [isDifferentProvider, h, hscanned, hne.symm]
  constructor
  · rw [differentProviderCount_reconcile, differentProviderCount_reconcile]
    simp [hdifferent]
    omega
  · intro m hm hraw
    obtain ⟨first, hfirst, _, _, _, _, hvalue⟩ := mem_missing hm
    have hfound := List.find?_some hfirst
    rw [Bool.and_eq_true] at hfound
    have hsame : first.value = ref.value := Option.some.inj (hvalue.symm.trans hraw)
    have hscope := hfound.1
    rw [inScope, hsame, hdifferent] at hscope
    exact absurd hscope (by simp)

end Excluded

/-! ## Which provider reads a host -/

theorem S3ProviderConfig.exists_of_recognises {config : S3ProviderConfig} {host : Str}
    (h : config.recognises host = true) :
    ∃ f, config.endpoint = some f ∧ (host = f.hostLower ∨ '.' :: f.hostLower <:+ host) := by
  unfold S3ProviderConfig.recognises at h
  cases hend : config.endpoint with
  | none => simp [hend] at h
  | some f =>
      refine ⟨f, rfl, ?_⟩
      rw [hend] at h
      simp only at h
      split_ifs at h
      · exact .inl (beq_iff_eq.mp h)
      · rw [Bool.and_eq_true, List.isSuffixOf_iff_suffix] at h
        exact .inr h.1

theorem HostsApart.eq_of_recognises {env : Env} (h : HostsApart env) {p q : S3ProviderConfig}
    {e : Endpoint} {host : Str} (hp : p ∈ env.s3Providers) (hend : p.endpoint = some e)
    (hq : q ∈ env.s3Providers) (hrec : q.recognises host = true)
    (hhost : host = e.hostLower ∨ '.' :: e.hostLower <:+ host) : q = p := by
  by_contra hne
  obtain ⟨f, hf, hfhost⟩ := S3ProviderConfig.exists_of_recognises hrec
  obtain ⟨hdistinct, hsub⟩ := h q hq p hp hne f e hf hend
  obtain ⟨_, hsub'⟩ := h p hp q hq (Ne.symm hne) e f hend hf
  rcases hhost with rfl | hhost
  · rcases hfhost with heq | hfhost
    · exact hdistinct heq.symm
    · exact hsub hfhost
  · rcases hfhost with rfl | hfhost
    · exact hsub' hhost
    · rcases List.suffix_or_suffix_of_suffix hfhost hhost with hsuf | hsuf
      · rcases List.suffix_cons_iff.mp hsuf with heq | hsuf
        · exact hdistinct (List.cons.inj heq).2
        · exact hsub hsuf
      · rcases List.suffix_cons_iff.mp hsuf with heq | hsuf
        · exact hdistinct (List.cons.inj heq).2.symm
        · exact hsub' hsuf

theorem HostsApart.find?_eq {env : Env} (h : HostsApart env) {p : S3ProviderConfig} {e : Endpoint}
    {host : Str} (hp : p ∈ env.s3Providers) (hend : p.endpoint = some e)
    (hhost : host = e.hostLower ∨ '.' :: e.hostLower <:+ host) :
    env.s3Providers.find? (·.recognises host) = if p.recognises host then some p else none := by
  cases hfind : env.s3Providers.find? (·.recognises host) with
  | some q =>
      have hrec : q.recognises host = true := by simpa using List.find?_some hfind
      obtain rfl := h.eq_of_recognises hp hend (List.mem_of_find?_eq_some hfind) hrec hhost
      rw [if_pos hrec]
  | none =>
      have hno := List.find?_eq_none.mp hfind p hp
      rw [if_neg hno]

theorem recognises_endpoint {p : S3ProviderConfig} {e : Endpoint} (hend : p.endpoint = some e) :
    p.recognises e.hostLower = p.forcePathStyle := by
  unfold S3ProviderConfig.recognises
  rw [hend]
  cases p.forcePathStyle <;> simp [Endpoint.hostLower]

theorem recognises_below_endpoint {p : S3ProviderConfig} {e : Endpoint}
    (hend : p.endpoint = some e) {bucket : Str} (hb : bucket ≠ []) :
    p.recognises (bucket ++ '.' :: e.hostLower) = !p.forcePathStyle := by
  have hpos : 0 < bucket.length := List.length_pos_iff.mpr hb
  have hsuf : ('.' :: e.hostLower).isSuffixOf (bucket ++ '.' :: e.hostLower) = true :=
    List.isSuffixOf_iff_suffix.mpr (List.suffix_append _ _)
  have hlen : e.hostLower.length + 1 < (bucket ++ '.' :: e.hostLower).length := by
    simp
    omega
  have hne : (bucket ++ '.' :: e.hostLower == e.hostLower) = false := by
    rw [beq_eq_false_iff_ne]
    intro heq
    rw [heq] at hlen
    omega
  unfold S3ProviderConfig.recognises
  rw [hend]
  change (if p.forcePathStyle = true then bucket ++ '.' :: e.hostLower == e.hostLower
    else ('.' :: e.hostLower).isSuffixOf (bucket ++ '.' :: e.hostLower) &&
      decide (e.hostLower.length + 1 < (bucket ++ '.' :: e.hostLower).length)) = _
  cases p.forcePathStyle with
  | true => simp [hne]
  | false => simpa [hsuf] using hpos

/-! ## What a host says about the bucket -/

inductive HostReading where
  | unknown
  | inPath
  | bucket (name : Str)
  deriving DecidableEq

/-- Bucket and key, from a path without leading slashes. -/
def HostReading.read (pathname : Str) : HostReading → Option Str × Str
  | unknown => (none, pathname)
  | inPath =>
      let (first, rest) := partition '/' pathname
      if first ≠ [] then (some first, lstripChar '/' rest) else (none, pathname)
  | bucket name => (some name, pathname)

def ObjectReference.address (r : ObjectReference) : Option Str × Str := (r.bucket, r.key)

theorem length_partition_le (c : Char) (s : Str) :
    (partition c s).1.length + (partition c s).2.length ≤ s.length := by
  have happend := congrArg List.length (List.takeWhile_append_dropWhile (p := (· != c)) (l := s))
  rw [List.length_append] at happend
  simp only [partition, List.length_tail]
  omega

theorem HostReading.read_path_iff {r : HostReading} {bucket k : Str} (hb : IsBucketName bucket)
    (hk : k.head? ≠ some '/') : r.read (bucket ++ '/' :: k) = (some bucket, k) ↔ r = .inPath := by
  cases r with
  | unknown => simp [read]
  | inPath =>
      have hparts : partition '/' (bucket ++ '/' :: k) = (bucket, k) :=
        partition_append (hb.notMem (by decide))
      simp [read, hparts, hb.ne_nil, lstripChar_eq_self hk]
  | bucket name =>
      refine iff_of_false (fun heq ↦ ?_) fun h ↦ by cases h
      have hlen := congrArg (List.length ∘ Prod.snd) heq
      simp only [read, Function.comp_apply, List.length_append, List.length_cons] at hlen
      omega

theorem HostReading.read_host_iff {r : HostReading} {bucket k : Str} :
    r.read k = (some bucket, k) ↔ r = .bucket bucket := by
  cases r with
  | unknown => simp [read]
  | inPath =>
      refine iff_of_false (fun heq ↦ ?_) fun h ↦ by cases h
      have hlen := length_partition_le '/' k
      have hstrip := length_lstripChar_le '/' (partition '/' k).2
      by_cases hfirst : (partition '/' k).1 = []
      · simp [read, hfirst] at heq
      · have hpos := List.length_pos_iff.mpr hfirst
        have hkey := congrArg (List.length ∘ Prod.snd) heq
        simp only [read, ne_eq, hfirst, not_false_eq_true, if_true, Function.comp_apply] at hkey
        omega
  | bucket name => simp [read]

/-- What the AWS pattern makes of a host. -/
def awsReading (host : Str) : HostReading :=
  match awsPart host with
  | none => .unknown
  | some [] => .inPath
  | some (c :: name) => .bucket (c :: name)

theorem awsReading_inPath_iff {host : Str} :
    awsReading host = .inPath ↔ awsPart host = some [] := by
  unfold awsReading
  match awsPart host with
  | none => simp
  | some [] => simp
  | some (c :: name) => simp

theorem awsReading_bucket_iff {host bucket : Str} (hb : bucket ≠ []) :
    awsReading host = .bucket bucket ↔ awsPart host = some bucket := by
  unfold awsReading
  match awsPart host with
  | none => simp
  | some [] => simpa using hb.symm
  | some (c :: name) => simp

/-- The reference read from a path and a host that no endpoint recognises. -/
def awsReference (pathname host : Str) : ObjectReference :=
  match matchAws pathname host with
  | some r => { r with key := lstripChar '/' r.key }
  | none => ⟨none, pathname, none⟩

theorem referenceAt_of_find?_eq_none {T : Tables} {env : Env} {netloc path : Str}
    (hfind : env.s3Providers.find? (·.recognises (lower T netloc)) = none) :
    referenceAt T env netloc path =
      awsReference (lstripChar '/' (unquote path)) (lower T netloc) := by
  rw [referenceAt, splitS3StyleUrl_of_find?_eq_none hfind]
  rfl

theorem awsReference_eq {pathname : Str} (host : Str) (hhead : pathname.head? ≠ some '/') :
    (awsReference pathname host).address = (awsReading host).read pathname ∧
      ∀ b, (awsReference pathname host).bucket = some b →
        (awsReference pathname host).providerHint = some awsProviderHint := by
  unfold awsReference matchAws awsReading awsPart
  cases beforeAwsHost host with
  | none => exact ⟨rfl, fun b hb ↦ by cases hb⟩
  | some before =>
      match hpart : rstripChar '.' before with
      | [] =>
          by_cases hfirst : (partition '/' pathname).1 = []
          · simp [hpart, hfirst, HostReading.read, ObjectReference.address]
          · simp [hpart, hfirst, HostReading.read, ObjectReference.address]
      | c :: name =>
          simp [hpart, HostReading.read, ObjectReference.address, lstripChar_eq_self hhead]

theorem awsReference_eq_iff {pathname : Str} (hhead : pathname.head? ≠ some '/')
    (host bucket k hint : Str) :
    awsReference pathname host = ⟨some bucket, k, some hint⟩ ↔
      hint = awsProviderHint ∧ (awsReading host).read pathname = (some bucket, k) := by
  obtain ⟨haddress, hhint⟩ := awsReference_eq host hhead
  rw [← haddress]
  constructor
  · intro heq
    rw [heq] at hhint
    refine ⟨Option.some.inj (hhint bucket rfl), ?_⟩
    rw [heq]
    rfl
  · rintro ⟨rfl, heq⟩
    obtain ⟨hbucket, hkey⟩ := Prod.mk.inj heq
    have haws := hhint bucket hbucket
    cases hread : awsReference pathname host
    rw [hread] at hbucket hkey haws
    simp_all

theorem IsBucketName.head?_append {b : Str} (hb : IsBucketName b) (rest : Str) :
    (b ++ rest).head? ≠ some '/' := by
  intro hhead
  cases b with
  | nil => exact hb.ne_nil rfl
  | cons c b =>
      obtain rfl : c = '/' := Option.some.inj hhead
      exact hb.notMem (by decide) List.mem_cons_self

/-! ## Both spellings -/

theorem splitObjectReference_addressUrl {T : Tables} {env : Env} {scheme netloc path : Str}
    (hscheme : IsHttpScheme scheme) (hnetloc : ∀ c ∈ netloc, isHostChar c = true)
    (hpath : ∀ c ∈ path, isSpace c = false ∧ c ≠ '?' ∧ c ≠ '#' ∧ c ≠ ';') :
    splitObjectReference T env (addressUrl scheme netloc path) =
      referenceAt T env netloc ('/' :: path) := by
  have hquery : '?' ∉ path ∧ '#' ∉ path :=
    ⟨fun hmem ↦ (hpath _ hmem).2.1 rfl, fun hmem ↦ (hpath _ hmem).2.2.1 rfl⟩
  have hcut : cutParams path = path := cutParams_of_notMem fun hmem ↦
    (hpath _ (List.rtakeWhile_suffix _ _ |>.subset hmem)).2.2.2 rfl
  have hclean : ∀ c ∈ path ++ [], isUnsafe c = false := fun c hc ↦
    isUnsafe_of_not_isSpace (hpath c (by simpa using hc)).1
  have hstrip : strip (addressUrl scheme netloc path) =
      scheme ++ ':' :: '/' :: '/' :: (netloc ++ '/' :: (path ++ [])) := by
    rw [List.append_nil]
    apply strip_address hscheme
    intro c hc
    rcases List.mem_append.mp hc with hc | hc
    · exact isHostChar_isSpace (hnetloc c hc)
    · rcases List.mem_cons.mp hc with rfl | hc
      · decide
      · exact (hpath c hc).1
  rw [splitObjectReference_address hscheme hnetloc hquery (by simp) hclean hstrip, hcut]

section Spellings

variable {T : Tables} {env : Env} {p : S3ProviderConfig} {e : Endpoint} {scheme bucket x k : Str}

theorem IsBucketName.plain {b : Str} (hb : IsBucketName b) :
    ∀ c ∈ b, isSpace c = false ∧ c ≠ '?' ∧ c ≠ '#' ∧ c ≠ ';' := by
  intro c hc
  refine ⟨isHostChar_isSpace (hb.isHostChar c hc), ?_, ?_, ?_⟩ <;> rintro rfl <;>
    exact hb.notMem (by decide) hc

theorem splitObjectReference_pathSpelling (hhosts : HostsApart env) (hp : p ∈ env.s3Providers)
    (hend : p.endpoint = some e) (hscheme : IsHttpScheme scheme) (hb : IsBucketName bucket)
    (hx : Spells (isQuoteSafe · = true) x k) (hk : k.head? ≠ some '/') :
    splitObjectReference T env (pathSpelling scheme e bucket x) =
      if p.forcePathStyle then ⟨some bucket, k, some p.key⟩
      else awsReference (bucket ++ '/' :: k) e.hostLower := by
  have hpath : ∀ c ∈ bucket ++ '/' :: x, isSpace c = false ∧ c ≠ '?' ∧ c ≠ '#' ∧ c ≠ ';' := by
    intro c hc
    rcases List.mem_append.mp hc with hc | hc
    · exact hb.plain c hc
    · rcases List.mem_cons.mp hc with rfl | hc
      · decide
      · exact quoted_mem hx hc
  have hunquote : unquote x = k := hx.unquote_eq fun _ ↦ isQuoteSafe_ne_percent
  have hlower : lower T e.netloc = e.hostLower := lower_netloc e.isHostChar
  have hfind := hhosts.find?_eq hp hend (.inl rfl)
  rw [recognises_endpoint hend, ← hlower] at hfind
  rw [pathSpelling, splitObjectReference_addressUrl hscheme e.isHostChar hpath]
  split_ifs with hforce
  · rw [if_pos hforce] at hfind
    rw [referenceAt_pathStyle hb hfind hforce, hunquote, lstripChar_eq_self hk]
  · rw [if_neg hforce] at hfind
    rw [referenceAt_of_find?_eq_none hfind, lstripChar_unquote_bucket hb, hunquote, hlower]

theorem splitObjectReference_hostSpelling (hhosts : HostsApart env) (hp : p ∈ env.s3Providers)
    (hend : p.endpoint = some e) (hscheme : IsHttpScheme scheme) (hb : IsBucketName bucket)
    (hlowered : ∀ c ∈ bucket, c.toLower = c)
    (hx : Spells (isQuoteSafe · = true) x k) (hk : k.head? ≠ some '/') :
    splitObjectReference T env (hostSpelling scheme e bucket x) =
      if p.forcePathStyle then awsReference k (bucket ++ '.' :: e.hostLower)
      else ⟨some bucket, k, some p.key⟩ := by
  have hhost : ∀ c ∈ bucket ++ '.' :: e.netloc, isHostChar c = true := by
    intro c hc
    rcases List.mem_append.mp hc with hc | hc
    · exact hb.isHostChar c hc
    · rcases List.mem_cons.mp hc with rfl | hc
      · decide
      · exact e.isHostChar c hc
  have hroot : lstripChar '/' (unquote ('/' :: x)) = k := by
    rw [unquote_cons (by decide), hx.unquote_eq fun _ ↦ isQuoteSafe_ne_percent]
    exact lstripChar_eq_self hk
  have hself : bucket.map Char.toLower = bucket :=
    (List.map_congr_left (g := id) hlowered).trans (List.map_id bucket)
  have hlower : lower T (bucket ++ '.' :: e.netloc) = bucket ++ '.' :: e.hostLower := by
    rw [lower_netloc hhost, List.map_append, hself]
    rfl
  have hfind := hhosts.find?_eq hp hend (.inr (List.suffix_append bucket _))
  rw [recognises_below_endpoint hend hb.ne_nil, ← hlower] at hfind
  rw [hostSpelling, splitObjectReference_addressUrl hscheme hhost fun c ↦ quoted_mem hx]
  split_ifs with hforce
  · rw [hforce] at hfind
    rw [referenceAt_of_find?_eq_none hfind, hroot, hlower]
  · rw [if_pos (by simpa using hforce)] at hfind
    obtain ⟨b, f, hf, hbhost, hread⟩ := referenceAt_virtual ('/' :: x) hfind (by simpa using hforce)
    obtain rfl : e = f := Option.some.inj (hend.symm.trans hf)
    obtain rfl : bucket = b := List.append_cancel_right (hlower.symm.trans hbhost)
    rw [hread, hroot]

/-- Both spellings of an object's address are read as the object, and so excluded
while another provider is scanned, exactly when the provider is AWS and the
spelling it is not configured for has a host of AWS. -/
theorem spellings_alike_iff (κ : Type*) (hhosts : HostsApart env) (hp : p ∈ env.s3Providers)
    (hend : p.endpoint = some e) (hscheme : IsHttpScheme scheme) (hb : IsBucketName bucket)
    (hlowered : ∀ c ∈ bucket, c.toLower = c)
    (hx : Spells (isQuoteSafe · = true) x k) (hk : k.head? ≠ some '/') :
    ((splitObjectReference T env (pathSpelling scheme e bucket x) =
          ⟨some bucket, k, some p.key⟩ ∧
        splitObjectReference T env (hostSpelling scheme e bucket x) =
          ⟨some bucket, k, some p.key⟩) ∧
      ExcludedElsewhere κ T env p.key (pathSpelling scheme e bucket x) ∧
      ExcludedElsewhere κ T env p.key (hostSpelling scheme e bucket x)) ↔
    ReadAsAws p e bucket := by
  have hiff : (splitObjectReference T env (pathSpelling scheme e bucket x) =
        ⟨some bucket, k, some p.key⟩ ∧
      splitObjectReference T env (hostSpelling scheme e bucket x) =
        ⟨some bucket, k, some p.key⟩) ↔ ReadAsAws p e bucket := by
    rw [splitObjectReference_pathSpelling hhosts hp hend hscheme hb hx hk,
      splitObjectReference_hostSpelling hhosts hp hend hscheme hb hlowered hx hk, ReadAsAws]
    cases p.forcePathStyle with
    | true =>
        have hiff := awsReference_eq_iff hk (bucket ++ '.' :: e.hostLower) bucket k p.key
        rw [HostReading.read_host_iff, awsReading_bucket_iff hb.ne_nil] at hiff
        simpa using hiff
    | false =>
        have hhead := hb.head?_append ('/' :: k)
        have hiff := awsReference_eq_iff hhead e.hostLower bucket k p.key
        rw [HostReading.read_path_iff hb hk, awsReading_inPath_iff] at hiff
        simpa using hiff
  rw [← hiff]
  constructor
  · exact fun h ↦ h.1
  · intro h
    exact ⟨h, excludedElsewhere_of_hint (by rw [h.1]), excludedElsewhere_of_hint (by rw [h.2])⟩

end Spellings

/-! ## One photo in two spellings -/

def awsRegionEndpoint : Endpoint where
  scheme := "https".toList
  netloc := "s3.eu-west-1.amazonaws.com".toList
  isHttpScheme := isHttpScheme_https
  netloc_ne_nil := by decide
  isHostChar := by decide

/-- AWS with the endpoint of a region in the settings. -/
def awsRegionProvider : S3ProviderConfig :=
  { awsProvider with endpoint := some awsRegionEndpoint, forcePathStyle := true }

def awsRegionEnv : Env := soleProviderEnv awsRegionProvider fun h ↦
  absurd h (Option.some_ne_none awsRegionEndpoint)

theorem hostsApart_soleProviderEnv (config : S3ProviderConfig)
    (hkey : config.endpoint = none → config.key = awsProviderHint) :
    HostsApart (soleProviderEnv config hkey) := by
  intro p hp q hq hne
  obtain rfl := List.mem_singleton.mp hp
  obtain rfl := List.mem_singleton.mp hq
  exact absurd rfl hne

theorem spellings_alike_iff_aws :
    ((splitObjectReference Tables.ascii awsRegionEnv
          (pathSpelling "https".toList awsRegionEndpoint "scola".toList (quote "a.png".toList)) =
          ⟨some "scola".toList, "a.png".toList, some "aws".toList⟩ ∧
        splitObjectReference Tables.ascii awsRegionEnv
          (hostSpelling "https".toList awsRegionEndpoint "scola".toList (quote "a.png".toList)) =
          ⟨some "scola".toList, "a.png".toList, some "aws".toList⟩) ∧
      ExcludedElsewhere ℕ Tables.ascii awsRegionEnv "aws".toList
        (pathSpelling "https".toList awsRegionEndpoint "scola".toList (quote "a.png".toList)) ∧
      ExcludedElsewhere ℕ Tables.ascii awsRegionEnv "aws".toList
        (hostSpelling "https".toList awsRegionEndpoint "scola".toList (quote "a.png".toList))) ↔
    ReadAsAws awsRegionProvider awsRegionEndpoint "scola".toList :=
  spellings_alike_iff ℕ (hostsApart_soleProviderEnv awsRegionProvider _)
    (List.mem_singleton.mpr rfl) rfl isHttpScheme_https ⟨by decide, by decide⟩ (by decide)
    (spells_quote _) (by decide)

/-- With the bucket in the host, the address of a path-style provider names no bucket. -/
theorem hostSpelling_unread :
    ¬∀ (T : Tables) (env : Env) (p : S3ProviderConfig) (e : Endpoint) (scheme bucket x k : Str),
      HostsApart env → p ∈ env.s3Providers → p.endpoint = some e → IsHttpScheme scheme →
      IsBucketName bucket → (∀ c ∈ bucket, c.toLower = c) →
      Spells (isQuoteSafe · = true) x k → k.head? ≠ some '/' →
      ((splitObjectReference T env (pathSpelling scheme e bucket x) =
            ⟨some bucket, k, some p.key⟩ ∧
          splitObjectReference T env (hostSpelling scheme e bucket x) =
            ⟨some bucket, k, some p.key⟩) ∧
        ExcludedElsewhere ℕ T env p.key (pathSpelling scheme e bucket x) ∧
        ExcludedElsewhere ℕ T env p.key (hostSpelling scheme e bucket x)) := by
  intro h
  have hread := h Tables.ascii sgp1Env sgp1Provider sgp1Endpoint "https".toList "scola".toList
    (quote "a.png".toList) "a.png".toList
    (hostsApart_soleProviderEnv sgp1Provider fun h ↦ absurd h (Option.some_ne_none sgp1Endpoint))
    (List.mem_singleton.mpr rfl) rfl isHttpScheme_https ⟨by decide, by decide⟩ (by decide)
    (spells_quote _) (by decide)
  have hunread : splitObjectReference Tables.ascii sgp1Env
      (hostSpelling "https".toList sgp1Endpoint "scola".toList (quote "a.png".toList)) =
      ⟨none, "a.png".toList, none⟩ := by decide
  exact absurd (hunread.symm.trans hread.1.2) (by decide)

end StorageReconciler
