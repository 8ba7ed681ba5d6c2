import StorageReconciler.ObjectAddress

/-!
# Addresses below a bucket

The base URL that is built for a bucket, read back.  An endpoint leads back to
its bucket where no other provider recognises the host first; a host of AWS is
cut at the first place from which it looks like one.
-/

namespace StorageReconciler

open Strings Patterns UrlSplit PercentCoding

/-! ## Hosts of AWS -/

/-- What stands between `s3` and the suffix, in lower case. -/
def regionPart (region : Str) : Str :=
  if region = "us-east-1".toList then [] else '.' :: region.map Char.toLower

theorem awsHost_lowered (region : Str) :
    (awsHost region).map Char.toLower = 's' :: '3' :: (regionPart region ++ amazonawsSuffix) := by
  unfold awsHost regionPart
  split_ifs with h
  · decide
  · have hhead : "s3.".toList.map Char.toLower = ['s', '3', '.'] := by decide
    have htail : ".amazonaws.com".toList.map Char.toLower = amazonawsSuffix := by decide
    rw [List.map_append, List.map_append, hhead, htail]
    simp

theorem isRegionChar_of_label {c : Char} (hc : c.isAlphanum = true ∨ c = '-') :
    isRegionChar c.toLower = true := by
  have hascii : isAscii c = true := by
    rcases hc with hc | rfl
    · exact isAscii_of_isAlphanum hc
    · decide
  have hall : ∀ n < 128, (Char.ofNat n).isAlphanum = true ∨ Char.ofNat n = '-' →
      isRegionChar (Char.ofNat n).toLower = true := by decide
  exact forall_ascii (P := fun c ↦ c.isAlphanum = true ∨ c = '-' → isRegionChar c.toLower = true)
    hall hascii hc

theorem S3ProviderConfig.isRegionPart_regionPart (config : S3ProviderConfig) :
    isRegionPart (regionPart config.region) = true := by
  unfold regionPart
  split_ifs with h
  · rfl
  · have hne : (config.region.map Char.toLower).isEmpty = false := by
      simpa using config.region_ne_nil
    have hall : (config.region.map Char.toLower).all isRegionChar = true := by
      rw [List.all_map, List.all_eq_true]
      exact fun c hc ↦ isRegionChar_of_label (config.isRegionLabel c hc)
    simp [isRegionPart, hne, hall]

theorem isAwsHost_append {part : Str} (h : isRegionPart part = true) :
    isAwsHost ('s' :: '3' :: (part ++ amazonawsSuffix)) = true := by
  have hs : reEq 's' 's' = true := by decide
  have hsuffix : ∀ c ∈ amazonawsSuffix, reEq c c = true := by decide
  simpa [isAwsHost, h, hs] using hsuffix

theorem isAwsHost_cases {head tail : Str} (htail : tail.length = amazonawsSuffix.length)
    (h : isAwsHost (head ++ tail) = true) :
    ∃ s part, head = s :: '3' :: part ∧ reEq 's' s = true ∧ isRegionPart part = true := by
  match head with
  | [] | [_] =>
      exfalso
      have hlong : ∀ s d rest, isAwsHost (s :: d :: rest) = true →
          amazonawsSuffix.length ≤ rest.length := by
        intro s d rest h
        simp only [isAwsHost, Bool.and_eq_true, beq_iff_eq, List.length_drop] at h
        omega
      have hshort : ∀ host : Str, isAwsHost host = true →
          amazonawsSuffix.length + 2 ≤ host.length := by
        intro host h
        match host with
        | [] | [_] => exact absurd h (by simp [isAwsHost])
        | s :: d :: rest => simpa using hlong s d rest h
      have hlen := hshort _ h
      simp only [List.nil_append, List.singleton_append, List.length_cons, htail] at hlen
      omega
  | s :: d :: part =>
      have hlen : (part ++ tail).length - amazonawsSuffix.length = part.length := by
        simp [htail]
      simp only [List.cons_append, isAwsHost, hlen, List.take_left', Bool.and_eq_true,
        beq_iff_eq] at h
      obtain ⟨⟨⟨⟨hs, rfl⟩, hpart⟩, _⟩, _⟩ := h
      exact ⟨s, part, rfl, hs, hpart⟩

theorem isRegionPart_dot_notMem {c : Char} {region : Str}
    (h : isRegionPart (c :: region) = true) : '.' ∉ region := by
  intro hmem
  simp only [isRegionPart, Bool.and_eq_true, List.all_eq_true] at h
  exact absurd (h.2 '.' hmem) (by decide)

/-- Before the host of AWS no other one begins, unless it is the label `s3`
before a host without a region. -/
theorem isAwsHost_before {label part : Str} (hlabel : ∀ c ∈ label, isAscii c = true)
    (h : isAwsHost (label ++ '.' :: 's' :: '3' :: (part ++ amazonawsSuffix)) = true) :
    label.map Char.toLower = "s3".toList ∧ '.' ∉ part := by
  have hassoc : label ++ '.' :: 's' :: '3' :: (part ++ amazonawsSuffix) =
      (label ++ '.' :: 's' :: '3' :: part) ++ amazonawsSuffix := by simp
  rw [hassoc] at h
  obtain ⟨s, part', hhead, hs, hpart⟩ := isAwsHost_cases rfl h
  match label, hlabel, hhead with
  | [], _, hhead =>
      obtain ⟨rfl, _⟩ := List.cons.inj hhead
      exact absurd hs (by decide)
  | [_], _, hhead => simp at hhead
  | [x, y], hlabel, hhead =>
      simp only [List.cons_append, List.nil_append, List.cons.injEq] at hhead
      obtain ⟨rfl, rfl, rfl⟩ := hhead
      have hx := toLower_of_reEq (hlabel x (by simp)) hs
      have hdot := isRegionPart_dot_notMem hpart
      refine ⟨?_, fun hmem ↦ hdot (by simp [hmem])⟩
      rw [List.map_cons, hx]
      decide
  | x :: y :: z :: label, _, hhead =>
      simp only [List.cons_append, List.cons.injEq] at hhead
      obtain ⟨_, _, rfl⟩ := hhead
      exact absurd (by simp) (isRegionPart_dot_notMem hpart)

theorem beforeDottedAwsHost_append {b tail : Str} (htail : isAwsHost tail = true)
    (hb : ∀ label, '.' :: label <:+ b → isAwsHost (label ++ '.' :: tail) = false) :
    beforeDottedAwsHost (b ++ '.' :: tail) = some b := by
  induction b with
  | nil => simp [beforeDottedAwsHost, htail]
  | cons c b ih =>
      have hskip : (c == '.' && isAwsHost (b ++ '.' :: tail)) = false := by
        by_cases hc : c = '.'
        · subst hc
          simp [hb b List.suffix_rfl]
        · simp [hc]
      have hrest := ih fun label hlabel ↦ hb label (hlabel.trans (List.suffix_cons c b))
      rw [List.cons_append, beforeDottedAwsHost, hskip, hrest]
      simp

/-! ## The base URL of a bucket -/

/-- The host in the base URL of a bucket. -/
def S3ProviderConfig.bucketHost (config : S3ProviderConfig) (bucket : Str) : Str :=
  match config.endpoint with
  | some e => if config.forcePathStyle then e.netloc else bucket ++ '.' :: e.netloc
  | none => bucket ++ '.' :: awsHost config.region

/-- The bucket is named by the path, not by the host. -/
def S3ProviderConfig.bucketInPath (config : S3ProviderConfig) : Bool :=
  config.endpoint.isSome && config.forcePathStyle

/-- The base URL of the bucket is read as this bucket of this provider: no other
provider recognises the host first, the host keeps the name as it is, and the name
does not itself look like the beginning of an AWS host. -/
structure LeadsBack (env : Env) (config : S3ProviderConfig) (bucket : Str) : Prop where
  isBucketName : IsBucketName bucket
  recognised : env.s3Providers.find?
      (·.recognises ((config.bucketHost bucket).map Char.toLower)) =
    if config.endpoint.isSome then some config else none
  lowered : config.bucketInPath = false → ∀ c ∈ bucket, c.toLower = c
  notDotted : config.endpoint = none → bucket.getLast? ≠ some '.'
  notLabel : config.endpoint = none → config.region = "us-east-1".toList →
    ¬".s3".toList <:+ '.' :: bucket

/-- A host of AWS is cut where the name of its bucket ends. -/
theorem LeadsBack.beforeAwsHost_eq {env : Env} {config : S3ProviderConfig} {bucket : Str}
    (h : LeadsBack env config bucket) (hnone : config.endpoint = none) :
    beforeAwsHost (bucket ++ '.' :: (awsHost config.region).map Char.toLower) = some bucket := by
  have hlower : ∀ c ∈ bucket, c.toLower = c :=
    h.lowered (by simp [S3ProviderConfig.bucketInPath, hnone])
  have hascii : ∀ c ∈ bucket, isAscii c = true := fun c hc ↦
    isHostChar_ascii (h.isBucketName.isHostChar c hc)
  have hno : ∀ label, '.' :: label <:+ '.' :: bucket →
      isAwsHost (label ++ '.' :: (awsHost config.region).map Char.toLower) = false := by
    intro label hlabel
    by_contra haws
    rw [Bool.not_eq_false, awsHost_lowered] at haws
    have hsub : ∀ c ∈ label, c = '.' ∨ c ∈ bucket := fun c hc ↦
      List.mem_cons.mp (hlabel.subset (List.mem_cons_of_mem _ hc))
    have hlabelAscii : ∀ c ∈ label, isAscii c = true := by
      intro c hc
      rcases hsub c hc with rfl | hc
      · decide
      · exact hascii c hc
    obtain ⟨hs3, hdot⟩ := isAwsHost_before hlabelAscii haws
    have hregion : config.region = "us-east-1".toList := by
      by_contra hregion
      rw [regionPart, if_neg hregion] at hdot
      exact hdot List.mem_cons_self
    have hself : label.map Char.toLower = label := by
      refine (List.map_congr_left (g := id) fun c hc ↦ ?_).trans (List.map_id label)
      rcases hsub c hc with rfl | hc
      · decide
      · exact hlower c hc
    rw [hself] at hs3
    subst hs3
    exact h.notLabel hnone hregion hlabel
  have hwhole : isAwsHost (bucket ++ '.' :: (awsHost config.region).map Char.toLower) = false :=
    hno bucket List.suffix_rfl
  have hpart := isAwsHost_append config.isRegionPart_regionPart
  rw [← awsHost_lowered] at hpart
  have hdotted := beforeDottedAwsHost_append hpart fun label hlabel ↦
    hno label (hlabel.trans (List.suffix_cons '.' bucket))
  have hnewline : (bucket ++ '.' :: (awsHost config.region).map Char.toLower).getLast? ≠
      some '\n' := by
    have hlast : amazonawsSuffix.getLast? = some 'm' := by decide
    rw [awsHost_lowered, ← List.cons_append, ← List.cons_append, ← List.cons_append,
      ← List.append_assoc, List.getLast?_append, hlast]
    exact fun h ↦ absurd (Option.some.inj h) (by decide)
  simp only [beforeAwsHost, if_neg hnewline, hwhole, hdotted, Bool.false_eq_true, if_false]

theorem Env.mem_of_provider? {env : Env} {key : Option Str} {config : S3ProviderConfig}
    (h : env.provider? key = some config) : config ∈ env.s3Providers := by
  unfold Env.provider? at h
  split at h
  · exact absurd h (by simp)
  · exact absurd h (by simp)
  · exact List.mem_of_find?_eq_some h

theorem isHttpScheme_lowered {p : Str} (hp : IsHttpScheme p) :
    IsHttpScheme (p.map Char.toLower) := by
  have hhttp : "http".toList.map Char.toLower = "http".toList := by decide
  have hhttps : "https".toList.map Char.toLower = "https".toList := by decide
  rcases hp with hp | hp
  · exact .inl (by rw [hp, hhttp])
  · exact .inr (by rw [hp, hhttps])

theorem buildBucketUrl_eq (T : Tables) {env : Env} {providerKey : Option Str}
    {config : S3ProviderConfig}
    (hconfig : env.provider? (orElse providerKey env.s3DefaultProviderKey) = some config)
    (bucket : Str) :
    ∃ scheme, IsHttpScheme scheme ∧ buildBucketUrl T env providerKey bucket =
      scheme ++ ':' :: '/' :: '/' :: (config.bucketHost bucket ++
        if config.bucketInPath then '/' :: bucket else []) := by
  have hsep : "://".toList = [':', '/', '/'] := by decide
  unfold buildBucketUrl S3ProviderConfig.bucketHost S3ProviderConfig.bucketInPath
  rw [hconfig]
  simp only
  cases config.endpoint with
  | none => exact ⟨_, isHttpScheme_https, by simp⟩
  | some e =>
      obtain ⟨r, hr, hscheme, hnetloc⟩ := e.urlparse_url T
      refine ⟨e.scheme.map Char.toLower, isHttpScheme_lowered e.isHttpScheme, ?_⟩
      simp only [hr, Option.map_some, Option.getD_some, hscheme, hnetloc, hsep]
      cases config.forcePathStyle <;> simp

theorem S3ProviderConfig.isHostChar_bucketHost (config : S3ProviderConfig) {bucket : Str}
    (hb : IsBucketName bucket) : ∀ c ∈ config.bucketHost bucket, isHostChar c = true := by
  have hbucket := hb.isHostChar
  have haws : ∀ c ∈ awsHost config.region, StorageReconciler.isHostChar c = true := by
    have hhead : ∀ c ∈ "s3.".toList, StorageReconciler.isHostChar c = true := by decide
    have htail : ∀ c ∈ ".amazonaws.com".toList, StorageReconciler.isHostChar c = true := by decide
    unfold awsHost
    split_ifs with hregion
    · decide
    · intro c hc
      rcases List.mem_append.mp hc with hc | hc
      · rcases List.mem_append.mp hc with hc | hc
        · exact hhead c hc
        · rcases config.isRegionLabel c hc with hc | rfl
          · simp [StorageReconciler.isHostChar, hc]
          · decide
      · exact htail c hc
  have hjoin : ∀ host : Str, (∀ c ∈ host, StorageReconciler.isHostChar c = true) →
      ∀ c ∈ bucket ++ '.' :: host, StorageReconciler.isHostChar c = true := by
    intro host hhost c hc
    rcases List.mem_append.mp hc with hc | hc
    · exact hbucket c hc
    · rcases List.mem_cons.mp hc with rfl | hc
      · decide
      · exact hhost c hc
  unfold S3ProviderConfig.bucketHost
  cases config.endpoint with
  | none => exact hjoin _ haws
  | some e =>
      simp only
      split_ifs
      · exact e.isHostChar
      · exact hjoin _ e.isHostChar

/-! ## Addresses of objects in the bucket -/

theorem quoted_mem {x k : Str} (hx : Spells (isQuoteSafe · = true) x k) {c : Char} (hc : c ∈ x) :
    isSpace c = false ∧ c ≠ '?' ∧ c ≠ '#' ∧ c ≠ ';' := by
  have hsafe : isAscii c = true ∧ (isQuoteSafe c = true ∨ c = '%') := by
    rcases hx.mem hc with hraw | rfl | ⟨n, hn⟩
    · refine ⟨?_, .inl hraw⟩
      simp only [isQuoteSafe, Bool.or_eq_true, beq_iff_eq] at hraw
      rcases hraw with ((((hraw | rfl) | rfl) | rfl) | rfl) | rfl
      · exact isAscii_of_isAlphanum hraw
      all_goals decide
    · exact ⟨by decide, .inr rfl⟩
    · have hall : ∀ n < 128, (hexDigit (Char.ofNat n)).isSome = true →
          isQuoteSafe (Char.ofNat n) = true := by decide
      have hascii := hexDigit_isAscii hn
      exact ⟨hascii, .inl (forall_ascii
        (P := fun c ↦ (hexDigit c).isSome = true → isQuoteSafe c = true) hall hascii
        (by simp [hn]))⟩
  have hall : ∀ n < 128, isQuoteSafe (Char.ofNat n) = true ∨ Char.ofNat n = '%' →
      isSpace (Char.ofNat n) = false ∧ Char.ofNat n ≠ '?' ∧ Char.ofNat n ≠ '#' ∧
        Char.ofNat n ≠ ';' := by decide
  exact forall_ascii (P := fun c ↦ isQuoteSafe c = true ∨ c = '%' →
    isSpace c = false ∧ c ≠ '?' ∧ c ≠ '#' ∧ c ≠ ';') hall hsafe.1 hsafe.2

theorem isUnsafe_of_not_isSpace {c : Char} (hc : isSpace c = false) : isUnsafe c = false := by
  by_contra h
  simp only [isUnsafe, Bool.not_eq_false, Bool.or_eq_true, beq_iff_eq] at h
  rcases h with (rfl | rfl) | rfl <;> exact absurd hc (by decide)

theorem isHostChar_isSpace {c : Char} (hc : isHostChar c = true) : isSpace c = false := by
  have hall : ∀ n < 128, StorageReconciler.isHostChar (Char.ofNat n) = true →
      isSpace (Char.ofNat n) = false := by decide
  exact forall_ascii (P := fun c ↦ StorageReconciler.isHostChar c = true → isSpace c = false)
    hall (isHostChar_ascii hc) hc

theorem strip_address {scheme rest : Str} (hscheme : IsHttpScheme scheme)
    (hrest : ∀ c ∈ rest, isSpace c = false) :
    strip (scheme ++ ':' :: '/' :: '/' :: rest) = scheme ++ ':' :: '/' :: '/' :: rest := by
  apply strip_of_forall
  intro c hc
  simp only [List.mem_append, List.mem_cons] at hc
  rcases hc with hc | rfl | rfl | rfl | hc
  · exact isHostChar_isSpace (by simp [isHostChar, isAlpha_isAlphanum (hscheme.isAlpha hc)])
  · decide
  · decide
  · decide
  · exact hrest c hc

theorem splitObjectReference_objectUrl {T : Tables} {env : Env} {providerKey : Option Str}
    {config : S3ProviderConfig} {bucket k x tail : Str}
    (hconfig : env.provider? (orElse providerKey env.s3DefaultProviderKey) = some config)
    (hb : IsBucketName bucket) (hx : Spells (isQuoteSafe · = true) x k)
    (htail : ∀ c, tail.head? = some c → c = '?' ∨ c = '#')
    (hspace : ∀ c ∈ tail, isSpace c = false) :
    splitObjectReference T env (buildBucketUrl T env providerKey bucket ++ '/' :: (x ++ tail)) =
      referenceAt T env (config.bucketHost bucket)
        ('/' :: if config.bucketInPath then bucket ++ '/' :: x else x) := by
  obtain ⟨scheme, hscheme, hurl⟩ := buildBucketUrl_eq T hconfig bucket
  have hxq : '?' ∉ x ∧ '#' ∉ x :=
    ⟨fun hmem ↦ (quoted_mem hx hmem).2.1 rfl, fun hmem ↦ (quoted_mem hx hmem).2.2.1 rfl⟩
  have hcut : cutParams x = x := cutParams_of_notMem fun hmem ↦
    (quoted_mem hx (List.rtakeWhile_suffix _ _ |>.subset hmem)).2.2.2 rfl
  have hrest : ∀ c ∈ x ++ tail, isSpace c = false := by
    intro c hc
    rcases List.mem_append.mp hc with hc | hc
    · exact (quoted_mem hx hc).1
    · exact hspace c hc
  have hclean : ∀ c ∈ x ++ tail, isUnsafe c = false := fun c hc ↦
    isUnsafe_of_not_isSpace (hrest c hc)
  have hhost := config.isHostChar_bucketHost hb
  have hstrip : strip (buildBucketUrl T env providerKey bucket ++ '/' :: (x ++ tail)) =
      buildBucketUrl T env providerKey bucket ++ '/' :: (x ++ tail) := by
    rw [hurl, List.append_assoc, List.cons_append, List.cons_append, List.cons_append]
    apply strip_address hscheme
    intro c hc
    simp only [List.mem_append, List.mem_cons] at hc
    rcases hc with (hc | hc) | rfl | hc
    · exact isHostChar_isSpace (hhost c hc)
    · split_ifs at hc
      · rcases List.mem_cons.mp hc with rfl | hc
        · decide
        · exact isHostChar_isSpace (hb.isHostChar c hc)
      · exact absurd hc List.not_mem_nil
    · decide
    · exact hrest c (List.mem_append.mpr hc)
  cases hpath : config.bucketInPath with
  | true =>
      rw [hpath] at hurl
      rw [splitObjectReference_address hscheme hhost (hb.append_notMem hxq) htail
        (hb.append_isUnsafe hclean) (by rw [hstrip, hurl]; simp), cutParams_append, hcut]
      rfl
  | false =>
      rw [hpath] at hurl
      rw [splitObjectReference_address hscheme hhost hxq htail hclean
        (by rw [hstrip, hurl]; simp), hcut]
      rfl

section LeadsBack

variable {env : Env} {config : S3ProviderConfig} {bucket k path : Str}

theorem LeadsBack.map_toLower (h : LeadsBack env config bucket)
    (hpath : config.bucketInPath = false) : bucket.map Char.toLower = bucket :=
  (List.map_congr_left (g := id) (h.lowered hpath)).trans (List.map_id bucket)

theorem LeadsBack.lower_bucketHost (h : LeadsBack env config bucket) (T : Tables) :
    lower T (config.bucketHost bucket) = (config.bucketHost bucket).map Char.toLower :=
  lower_netloc (config.isHostChar_bucketHost h.isBucketName)

theorem LeadsBack.referenceAt_aws (h : LeadsBack env config bucket) (T : Tables)
    (hconfig : config ∈ env.s3Providers) (hend : config.endpoint = none)
    (hroot : lstripChar '/' (unquote path) = k) (hk : k.head? ≠ some '/') :
    referenceAt T env (config.bucketHost bucket) path = ⟨some bucket, k, some config.key⟩ := by
  have hpath : config.bucketInPath = false := by simp [S3ProviderConfig.bucketInPath, hend]
  have hfind : env.s3Providers.find? (·.recognises (lower T (config.bucketHost bucket))) =
      none := by
    simpa [hend, h.lower_bucketHost T] using h.recognised
  have hlowered : lower T (config.bucketHost bucket) =
      bucket ++ '.' :: (awsHost config.region).map Char.toLower := by
    rw [h.lower_bucketHost T]
    simp [S3ProviderConfig.bucketHost, hend, h.map_toLower hpath]
  have hdots : rstripChar '.' bucket = bucket := by
    apply List.rdropWhile_eq_self_iff.mpr
    intro hne hlast
    apply h.notDotted hend
    rw [List.getLast?_eq_some_getLast hne, beq_iff_eq.mp hlast]
  have hkey : config.key = awsProviderHint := env.endpoint_eq_none config hconfig hend
  rw [referenceAt, hroot, splitS3StyleUrl_of_find?_eq_none hfind, matchAws, hlowered,
    h.beforeAwsHost_eq hend]
  simp only [hdots, ne_eq, h.isBucketName.ne_nil, not_false_eq_true, if_true, hkey,
    lstripChar_eq_self hk]

theorem LeadsBack.referenceAt_endpointHost (h : LeadsBack env config bucket) (T : Tables)
    {e : Endpoint} (hend : config.endpoint = some e) (hforce : config.forcePathStyle = false)
    (hroot : lstripChar '/' (unquote path) = k) :
    referenceAt T env (config.bucketHost bucket) path = ⟨some bucket, k, some config.key⟩ := by
  have hpath : config.bucketInPath = false := by simp [S3ProviderConfig.bucketInPath, hforce]
  have hfind : env.s3Providers.find? (·.recognises (lower T (config.bucketHost bucket))) =
      some config := by
    simpa [hend, h.lower_bucketHost T] using h.recognised
  obtain ⟨b, e', hend', hbhost, hread⟩ := referenceAt_virtual path hfind hforce
  obtain rfl : e = e' := Option.some.inj (hend.symm.trans hend')
  have hb : b = bucket := by
    rw [h.lower_bucketHost T] at hbhost
    simp only [S3ProviderConfig.bucketHost, hend, hforce, Bool.false_eq_true, if_false,
      List.map_append, List.map_cons, h.map_toLower hpath] at hbhost
    exact (List.append_cancel_right hbhost).symm
  rw [hread, hroot, hb]

end LeadsBack

/-- The address of an object is read as its bucket, its key and its provider. -/
theorem splitObjectReference_bucketUrl {T : Tables} {env : Env} {providerKey : Option Str}
    {config : S3ProviderConfig} {bucket k x tail : Str}
    (hconfig : env.provider? (orElse providerKey env.s3DefaultProviderKey) = some config)
    (h : LeadsBack env config bucket) (hk : k.head? ≠ some '/')
    (hx : Spells (isQuoteSafe · = true) x k)
    (htail : ∀ c, tail.head? = some c → c = '?' ∨ c = '#')
    (hspace : ∀ c ∈ tail, isSpace c = false) :
    splitObjectReference T env (buildBucketUrl T env providerKey bucket ++ '/' :: (x ++ tail)) =
      ⟨some bucket, k, some config.key⟩ := by
  have hunquote : unquote x = k := hx.unquote_eq fun _ ↦ isQuoteSafe_ne_percent
  have hroot : lstripChar '/' (unquote ('/' :: x)) = k := by
    rw [unquote_cons (by decide), hunquote]
    exact lstripChar_eq_self hk
  rw [splitObjectReference_objectUrl hconfig h.isBucketName hx htail hspace]
  cases hend : config.endpoint with
  | none =>
      have hpath : config.bucketInPath = false := by simp [S3ProviderConfig.bucketInPath, hend]
      rw [hpath, if_neg Bool.false_ne_true]
      exact h.referenceAt_aws T (Env.mem_of_provider? hconfig) hend hroot hk
  | some e =>
      cases hforce : config.forcePathStyle with
      | true =>
          have hpath : config.bucketInPath = true := by
            simp [S3ProviderConfig.bucketInPath, hend, hforce]
          have hfind : env.s3Providers.find?
              (·.recognises (lower T (config.bucketHost bucket))) = some config := by
            simpa [hend, h.lower_bucketHost T] using h.recognised
          rw [hpath, if_pos rfl, referenceAt_pathStyle h.isBucketName hfind hforce, hunquote,
            lstripChar_eq_self hk]
      | false =>
          have hpath : config.bucketInPath = false := by
            simp [S3ProviderConfig.bucketInPath, hforce]
          rw [hpath, if_neg Bool.false_ne_true]
          exact h.referenceAt_endpointHost T hend hforce hroot

end StorageReconciler
