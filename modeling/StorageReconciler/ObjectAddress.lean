import StorageReconciler.ObjectReference

/-!
# Addresses of objects

How an address written for a provider is read back.  The first provider whose
endpoint recognises the host decides; below it stand the two addressing styles
and the AWS hosts, for any spelling of the path.
-/

namespace StorageReconciler

open Strings UrlSplit PercentCoding

structure IsBucketName (b : Str) : Prop where
  ne_nil : b ≠ []
  isBucketChar : ∀ c ∈ b, (c.isAlphanum || c == '.' || c == '-' || c == '_') = true

theorem IsBucketName.isHostChar {b : Str} (hb : IsBucketName b) :
    ∀ c ∈ b, isHostChar c = true := by
  intro c hc
  have h := hb.isBucketChar c hc
  simp only [StorageReconciler.isHostChar, h, Bool.true_or]

theorem IsBucketName.notMem {b : Str} (hb : IsBucketName b) {c : Char}
    (hc : (c.isAlphanum || c == '.' || c == '-' || c == '_') = false) : c ∉ b :=
  fun hmem ↦ by simpa [hc] using hb.isBucketChar c hmem

/-! ## Which provider decides -/

/-- The endpoint recognises the lowered host, by its own addressing style. -/
def S3ProviderConfig.recognises (config : S3ProviderConfig) (hostLower : Str) : Bool :=
  match config.endpoint with
  | none => false
  | some e =>
      let h := e.netloc.map Char.toLower
      if config.forcePathStyle then hostLower == h
      else ('.' :: h).isSuffixOf hostLower && decide (h.length + 1 < hostLower.length)

theorem Endpoint.lowered_ne_nil (e : Endpoint) : e.netloc.map Char.toLower ≠ [] := by
  simpa using e.netloc_ne_nil

theorem matchProvider_of_not_recognises {T : Tables} {pathname host : Str}
    {config : S3ProviderConfig} (h : config.recognises host = false) :
    matchProvider T pathname host config = none := by
  unfold matchProvider
  unfold S3ProviderConfig.recognises at h
  cases hend : config.endpoint with
  | none => rfl
  | some e =>
      rw [hend] at h
      simp only [endpointHost_eq, if_neg e.lowered_ne_nil]
      cases hforce : config.forcePathStyle with
      | true =>
          have hne : (host == e.netloc.map Char.toLower) = false := by simpa [hforce] using h
          simp [hne]
      | false =>
          by_cases hsuf : ('.' :: e.netloc.map Char.toLower).isSuffixOf host = true
          · have hle : host.length ≤ e.netloc.length + 1 := by
              simpa [hforce, hsuf] using h
            have hzero : host.length - (e.netloc.length + 1) = 0 := by omega
            simp [hsuf, hzero]
          · simp [hsuf]

theorem matchProvider_pathStyle {T : Tables} {pathname host : Str} {config : S3ProviderConfig}
    (h : config.recognises host = true) (hforce : config.forcePathStyle = true)
    (hb : (partition '/' pathname).1 ≠ []) :
    matchProvider T pathname host config =
      some ⟨some (partition '/' pathname).1, (partition '/' pathname).2, some config.key⟩ := by
  unfold matchProvider
  unfold S3ProviderConfig.recognises at h
  cases hend : config.endpoint with
  | none => rw [hend] at h; exact absurd h (by simp)
  | some e =>
      rw [hend] at h
      have hhost : (host == e.netloc.map Char.toLower) = true := by simpa [hforce] using h
      simp only [endpointHost_eq, if_neg e.lowered_ne_nil, hforce, hhost, Bool.and_self, if_true,
        if_pos hb]

theorem matchProvider_virtual {T : Tables} {host : Str} {config : S3ProviderConfig}
    (pathname : Str)
    (h : config.recognises host = true) (hforce : config.forcePathStyle = false) :
    ∃ b, matchProvider T pathname host config = some ⟨some b, pathname, some config.key⟩ ∧
      ∃ e, config.endpoint = some e ∧ host = b ++ '.' :: e.netloc.map Char.toLower := by
  unfold matchProvider
  unfold S3ProviderConfig.recognises at h
  cases hend : config.endpoint with
  | none => rw [hend] at h; exact absurd h (by simp)
  | some e =>
      rw [hend] at h
      simp only [hforce, Bool.false_eq_true, if_false, Bool.and_eq_true,
        decide_eq_true_eq] at h
      obtain ⟨hsuf, hlt⟩ := h
      obtain ⟨b, hb⟩ := List.isSuffixOf_iff_suffix.mp hsuf
      have htake : host.take (host.length - ((e.netloc.map Char.toLower).length + 1)) = b := by
        rw [← hb]
        simp
      have hbne : b ≠ [] := by
        rintro rfl
        rw [← hb] at hlt
        simp at hlt
      refine ⟨b, ?_, e, rfl, hb.symm⟩
      simp only [endpointHost_eq, if_neg e.lowered_ne_nil, hforce, hsuf, htake, if_pos hbne,
        Bool.false_and, Bool.false_eq_true, if_false, Bool.not_false, Bool.true_and, if_true]

theorem splitS3StyleUrl_of_find? {T : Tables} {env : Env} {pathname host : Str}
    {config : S3ProviderConfig} {r : ObjectReference}
    (hfind : env.s3Providers.find? (·.recognises (lower T host)) = some config)
    (hmatch : matchProvider T pathname (lower T host) config = some r) :
    splitS3StyleUrl T env pathname host = some r := by
  obtain ⟨_, before, after, hsplit, hbefore⟩ := List.find?_eq_some_iff_append.mp hfind
  have hnone : before.findSome? (matchProvider T pathname (lower T host)) = none := by
    rw [List.findSome?_eq_none_iff]
    intro p hp
    exact matchProvider_of_not_recognises (by simpa using hbefore p hp)
  simp [splitS3StyleUrl, hsplit, List.findSome?_append, hnone, hmatch]

theorem splitS3StyleUrl_of_find?_eq_none {T : Tables} {env : Env} {pathname host : Str}
    (hfind : env.s3Providers.find? (·.recognises (lower T host)) = none) :
    splitS3StyleUrl T env pathname host = matchAws pathname (lower T host) := by
  have hnone : env.s3Providers.findSome? (matchProvider T pathname (lower T host)) = none := by
    rw [List.findSome?_eq_none_iff]
    intro p hp
    have hp' := List.find?_eq_none.mp hfind p hp
    exact matchProvider_of_not_recognises (by simpa using hp')
  simp [splitS3StyleUrl, hnone]

/-! ## The path of an address -/

/-- The path without the parameters of its last segment. -/
def cutParams (path : Str) : Str := (splitParams path).1

theorem cutParams_of_notMem {path : Str} (h : ';' ∉ path.rtakeWhile (· != '/')) :
    cutParams path = path := by
  have hc : (path.rtakeWhile (· != '/')).contains ';' = false := by
    simpa [List.contains_eq_mem] using h
  simp only [cutParams, splitParams, hc, Bool.false_eq_true, if_false]

theorem rdropWhile_append_cons {α : Type*} {p : α → Bool} {c : α} (hc : p c = false)
    (d x : List α) : (d ++ c :: x).rdropWhile p = d ++ c :: x.rdropWhile p := by
  induction x using List.reverseRecOn with
  | nil => simp [List.rdropWhile_concat_neg, hc]
  | append_singleton x a ih =>
      have hassoc : d ++ c :: (x ++ [a]) = (d ++ c :: x) ++ [a] := by simp
      rw [hassoc]
      by_cases ha : p a = true
      · rw [List.rdropWhile_concat_pos _ _ _ ha, List.rdropWhile_concat_pos _ _ _ ha, ih]
      · rw [List.rdropWhile_concat_neg _ _ _ ha, List.rdropWhile_concat_neg _ _ _ ha]
        simp

theorem rtakeWhile_append_cons {α : Type*} {p : α → Bool} {c : α} (hc : p c = false)
    (d x : List α) : (d ++ c :: x).rtakeWhile p = x.rtakeWhile p := by
  induction x using List.reverseRecOn with
  | nil => simp [List.rtakeWhile_concat_neg, hc]
  | append_singleton x a ih =>
      have hassoc : d ++ c :: (x ++ [a]) = (d ++ c :: x) ++ [a] := by simp
      rw [hassoc]
      by_cases ha : p a = true
      · rw [List.rtakeWhile_concat_pos _ _ _ ha, List.rtakeWhile_concat_pos _ _ _ ha, ih]
      · rw [List.rtakeWhile_concat_neg _ _ _ ha, List.rtakeWhile_concat_neg _ _ _ ha]

theorem cutParams_append (d x : Str) :
    cutParams (d ++ '/' :: x) = d ++ '/' :: cutParams x := by
  have hslash : ('/' != '/') = false := by decide
  have hdrop := rdropWhile_append_cons (p := (· != '/')) hslash d x
  have htake := rtakeWhile_append_cons (p := (· != '/')) hslash d x
  simp only [cutParams, splitParams, hdrop, htake]
  split_ifs <;> simp

theorem pathOf_append {netloc x tail : Str} (hnetloc : ∀ c ∈ netloc, isHostChar c = true)
    (hx : '?' ∉ x ∧ '#' ∉ x) (htail : ∀ c, tail.head? = some c → c = '?' ∨ c = '#') :
    pathOf (netloc ++ '/' :: (x ++ tail)) = '/' :: cutParams x := by
  have hpos : ∀ c ∈ netloc, (!endsNetloc c) = true := fun c hc ↦ by
    simp [isHostChar_endsNetloc (hnetloc c hc)]
  have hdrop : (netloc ++ '/' :: (x ++ tail)).dropWhile (!endsNetloc ·) = '/' :: (x ++ tail) := by
    rw [List.dropWhile_append_of_pos hpos]
    simp [endsNetloc]
  have hinside : ∀ c ∈ '/' :: x, (c != '#' && c != '?') = true := by
    intro c hc
    rcases List.mem_cons.mp hc with rfl | hc
    · decide
    · simp only [Bool.and_eq_true, bne_iff_ne, ne_eq]
      refine ⟨?_, ?_⟩ <;> rintro rfl
      · exact hx.2 hc
      · exact hx.1 hc
  have htake : tail.takeWhile (fun c ↦ c != '#' && c != '?') = [] := by
    cases tail with
    | nil => rfl
    | cons c tail => rcases htail c rfl with rfl | rfl <;> simp
  have hraw : rawPathOf (netloc ++ '/' :: (x ++ tail)) = '/' :: x := by
    rw [rawPathOf, hdrop, ← List.cons_append, List.takeWhile_append_of_pos hinside, htake,
      List.append_nil]
  calc
    pathOf (netloc ++ '/' :: (x ++ tail)) = cutParams ('/' :: x) := by
      rw [pathOf, hraw]
      rfl
    _ = '/' :: cutParams x := cutParams_append [] x

theorem separates_slash : Separates '/' := by decide

theorem unquote_of_notMem {s : Str} (hs : '%' ∉ s) : unquote s = s := by
  have hraw : ∀ c ∈ s, c ≠ '%' := by
    rintro c hc rfl
    exact hs hc
  exact (Spells.refl hraw).unquote_eq fun _ h ↦ h

theorem lstripChar_unquote_bucket {b : Str} (hb : IsBucketName b) (x : Str) :
    lstripChar '/' (unquote ('/' :: (b ++ '/' :: x))) = b ++ '/' :: unquote x := by
  rw [unquote_cons (by decide), unquote_append separates_slash,
    unquote_of_notMem (hb.notMem (by decide))]
  have hstrip : lstripChar '/' ('/' :: (b ++ '/' :: unquote x)) =
      lstripChar '/' (b ++ '/' :: unquote x) := rfl
  rw [hstrip]
  apply lstripChar_eq_self
  cases b with
  | nil => exact absurd rfl hb.ne_nil
  | cons c b =>
      rintro ⟨rfl⟩
      exact hb.notMem (by decide) (List.mem_cons_self)

/-! ## Whole addresses -/

theorem lower_netloc {T : Tables} {netloc : Str} (h : ∀ c ∈ netloc, isHostChar c = true) :
    lower T netloc = netloc.map Char.toLower :=
  lower_of_ascii T fun c hc ↦ isHostChar_ascii (h c hc)

theorem splitObjectReference_address {T : Tables} {env : Env} {scheme netloc x tail value : Str}
    (hscheme : IsHttpScheme scheme) (hnetloc : ∀ c ∈ netloc, isHostChar c = true)
    (hx : '?' ∉ x ∧ '#' ∉ x) (htail : ∀ c, tail.head? = some c → c = '?' ∨ c = '#')
    (hclean : ∀ c ∈ x ++ tail, isUnsafe c = false)
    (hvalue : strip value = scheme ++ ':' :: '/' :: '/' :: (netloc ++ '/' :: (x ++ tail))) :
    splitObjectReference T env value = referenceAt T env netloc ('/' :: cutParams x) := by
  have hhead : ∀ c, ('/' :: (x ++ tail)).head? = some c → endsNetloc c = true := by
    rintro c ⟨rfl⟩
    rfl
  have hhost := netlocOf_append hnetloc _ hhead
  have hall : ∀ c ∈ netloc ++ '/' :: (x ++ tail), isUnsafe c = false := by
    intro c hc
    rcases List.mem_append.mp hc with hc | hc
    · exact isHostChar_isUnsafe (hnetloc c hc)
    · rcases List.mem_cons.mp hc with rfl | hc
      · decide
      · exact hclean c hc
  have hok : netlocOk T (netlocOf (netloc ++ '/' :: (x ++ tail))) = true := by
    rw [hhost]
    exact netlocOk_of_isHostChar T hnetloc
  rw [splitObjectReference_http hscheme hall hvalue, if_pos hok, hhost,
    pathOf_append hnetloc hx htail]

theorem IsBucketName.append_notMem {b x : Str} (hb : IsBucketName b)
    (hx : '?' ∉ x ∧ '#' ∉ x) : '?' ∉ b ++ '/' :: x ∧ '#' ∉ b ++ '/' :: x := by
  have hq := hb.notMem (c := '?') (by decide)
  have hf := hb.notMem (c := '#') (by decide)
  simp [hq, hf, hx]

theorem IsBucketName.append_isUnsafe {b x tail : Str} (hb : IsBucketName b)
    (h : ∀ c ∈ x ++ tail, isUnsafe c = false) :
    ∀ c ∈ b ++ '/' :: x ++ tail, isUnsafe c = false := by
  intro c hc
  rw [List.append_assoc, List.mem_append, List.cons_append, List.mem_cons] at hc
  rcases hc with hc | rfl | hc
  · exact isHostChar_isUnsafe (hb.isHostChar c hc)
  · decide
  · exact h c hc

theorem referenceAt_pathStyle {T : Tables} {env : Env} {config : S3ProviderConfig}
    {netloc b x : Str} (hb : IsBucketName b)
    (hfind : env.s3Providers.find? (·.recognises (lower T netloc)) = some config)
    (hforce : config.forcePathStyle = true) :
    referenceAt T env netloc ('/' :: (b ++ '/' :: x)) =
      ⟨some b, lstripChar '/' (unquote x), some config.key⟩ := by
  have hrec : config.recognises (lower T netloc) = true := by
    simpa using List.find?_some hfind
  have hparts : partition '/' (b ++ '/' :: unquote x) = (b, unquote x) :=
    partition_append (hb.notMem (by decide))
  have hne : (partition '/' (b ++ '/' :: unquote x)).1 ≠ [] := by
    rw [hparts]
    exact hb.ne_nil
  have hmatch := matchProvider_pathStyle (T := T) hrec hforce hne
  rw [hparts] at hmatch
  rw [referenceAt, lstripChar_unquote_bucket hb, splitS3StyleUrl_of_find? hfind hmatch]

theorem referenceAt_virtual {T : Tables} {env : Env} {config : S3ProviderConfig}
    {netloc : Str} (path : Str)
    (hfind : env.s3Providers.find? (·.recognises (lower T netloc)) = some config)
    (hforce : config.forcePathStyle = false) :
    ∃ b e, config.endpoint = some e ∧ lower T netloc = b ++ '.' :: e.netloc.map Char.toLower ∧
      referenceAt T env netloc path =
        ⟨some b, lstripChar '/' (unquote path), some config.key⟩ := by
  have hrec : config.recognises (lower T netloc) = true := by
    simpa using List.find?_some hfind
  obtain ⟨b, hmatch, e, hend, hhost⟩ := matchProvider_virtual (T := T)
    (lstripChar '/' (unquote path)) hrec hforce
  refine ⟨b, e, hend, hhost, ?_⟩
  rw [referenceAt, splitS3StyleUrl_of_find? hfind hmatch]
  simp only [lstripChar_eq_self (head?_lstripChar_ne '/' _)]

theorem splitObjectReference_pathStyle {T : Tables} {env : Env} {config : S3ProviderConfig}
    {scheme netloc b x tail value : Str} (hscheme : IsHttpScheme scheme)
    (hnetloc : ∀ c ∈ netloc, isHostChar c = true) (hb : IsBucketName b)
    (hx : '?' ∉ x ∧ '#' ∉ x) (htail : ∀ c, tail.head? = some c → c = '?' ∨ c = '#')
    (hclean : ∀ c ∈ x ++ tail, isUnsafe c = false)
    (hfind : env.s3Providers.find? (·.recognises (netloc.map Char.toLower)) = some config)
    (hforce : config.forcePathStyle = true)
    (hvalue : strip value =
      scheme ++ ':' :: '/' :: '/' :: (netloc ++ '/' :: (b ++ '/' :: x ++ tail))) :
    splitObjectReference T env value =
      ⟨some b, lstripChar '/' (unquote (cutParams x)), some config.key⟩ := by
  rw [← lower_netloc (T := T) hnetloc] at hfind
  rw [splitObjectReference_address hscheme hnetloc (hb.append_notMem hx) htail
    (hb.append_isUnsafe hclean) hvalue,
    cutParams_append, referenceAt_pathStyle hb hfind hforce]

theorem splitObjectReference_virtual {T : Tables} {env : Env} {config : S3ProviderConfig}
    {scheme netloc x tail value : Str} (hscheme : IsHttpScheme scheme)
    (hnetloc : ∀ c ∈ netloc, isHostChar c = true)
    (hx : '?' ∉ x ∧ '#' ∉ x) (htail : ∀ c, tail.head? = some c → c = '?' ∨ c = '#')
    (hclean : ∀ c ∈ x ++ tail, isUnsafe c = false)
    (hfind : env.s3Providers.find? (·.recognises (netloc.map Char.toLower)) = some config)
    (hforce : config.forcePathStyle = false)
    (hvalue : strip value = scheme ++ ':' :: '/' :: '/' :: (netloc ++ '/' :: (x ++ tail))) :
    ∃ b e, config.endpoint = some e ∧
      netloc.map Char.toLower = b ++ '.' :: e.netloc.map Char.toLower ∧
      splitObjectReference T env value =
        ⟨some b, lstripChar '/' (unquote ('/' :: cutParams x)), some config.key⟩ := by
  rw [← lower_netloc (T := T) hnetloc] at hfind ⊢
  rw [splitObjectReference_address hscheme hnetloc hx htail hclean hvalue]
  exact referenceAt_virtual ('/' :: cutParams x) hfind hforce

/-- The host alone decides whether the bucket is sought in the path, is a part of
the host, or is unknown. -/
theorem splitS3StyleUrl_cases (T : Tables) (env : Env) (host : Str) :
    (∃ hint, ∀ pathname, pathname ≠ [] → pathname.head? ≠ some '/' →
      splitS3StyleUrl T env pathname host =
        some ⟨some (partition '/' pathname).1, (partition '/' pathname).2, some hint⟩) ∨
    (∃ bucket hint, ∀ pathname,
      splitS3StyleUrl T env pathname host = some ⟨some bucket, pathname, some hint⟩) ∨
    ∀ pathname, splitS3StyleUrl T env pathname host = none := by
  have hfirst : ∀ pathname : Str, pathname ≠ [] → pathname.head? ≠ some '/' →
      (partition '/' pathname).1 ≠ [] := by
    intro pathname hne hhead
    cases pathname with
    | nil => exact absurd rfl hne
    | cons c s =>
        have hc : (c != '/') = true := by simpa using hhead
        simp [partition, hc]
  cases hfind : env.s3Providers.find? (·.recognises (lower T host)) with
  | some config =>
      have hrec : config.recognises (lower T host) = true := by simpa using List.find?_some hfind
      cases hforce : config.forcePathStyle with
      | true =>
          refine .inl ⟨config.key, fun pathname hne hhead ↦ ?_⟩
          exact splitS3StyleUrl_of_find? hfind
            (matchProvider_pathStyle hrec hforce (hfirst pathname hne hhead))
      | false =>
          obtain ⟨b, _, e, hend, hhost⟩ := matchProvider_virtual (T := T) [] hrec hforce
          refine .inr (.inl ⟨b, config.key, fun pathname ↦ ?_⟩)
          obtain ⟨b', hmatch, e', hend', hhost'⟩ := matchProvider_virtual (T := T)
            pathname hrec hforce
          obtain rfl : e = e' := Option.some.inj (hend.symm.trans hend')
          obtain rfl : b = b' := List.append_cancel_right (hhost.symm.trans hhost')
          exact splitS3StyleUrl_of_find? hfind hmatch
  | none =>
      simp only [splitS3StyleUrl_of_find?_eq_none hfind, matchAws]
      cases beforeAwsHost (lower T host) with
      | none => exact .inr (.inr fun _ ↦ rfl)
      | some before =>
          by_cases hbefore : rstripChar '.' before = []
          · refine .inl ⟨awsProviderHint, fun pathname hne hhead ↦ ?_⟩
            simp [hbefore, hfirst pathname hne hhead]
          · exact .inr (.inl ⟨rstripChar '.' before, awsProviderHint, fun _ ↦ by simp [hbefore]⟩)

/-! ## What a key is made of -/

theorem partition_snd_suffix (c : Char) (s : Str) : (partition c s).2 <:+ s :=
  (List.tail_suffix _).trans (List.dropWhile_suffix _)

theorem matchProvider_key_suffix {T : Tables} {pathname host : Str} {config : S3ProviderConfig}
    {r : ObjectReference} (h : matchProvider T pathname host config = some r) :
    r.key <:+ pathname := by
  unfold matchProvider at h
  cases hend : config.endpoint with
  | none => simp [hend] at h
  | some e =>
      rw [hend] at h
      simp only at h
      split_ifs at h
      · obtain rfl := Option.some.inj h
        exact partition_snd_suffix '/' pathname
      · obtain rfl := Option.some.inj h
        exact List.suffix_rfl

theorem matchAws_key_suffix {pathname host : Str} {r : ObjectReference}
    (h : matchAws pathname host = some r) : r.key <:+ pathname := by
  unfold matchAws at h
  cases hbefore : beforeAwsHost host with
  | none => simp [hbefore] at h
  | some before =>
      rw [hbefore] at h
      simp only at h
      split_ifs at h
      · obtain rfl := Option.some.inj h
        exact List.suffix_rfl
      · obtain rfl := Option.some.inj h
        exact partition_snd_suffix '/' pathname

theorem splitS3StyleUrl_key_suffix {T : Tables} {env : Env} {pathname host : Str}
    {r : ObjectReference} (h : splitS3StyleUrl T env pathname host = some r) :
    r.key <:+ pathname := by
  rcases Option.or_eq_some_iff.mp h with h | ⟨_, h⟩
  · obtain ⟨config, _, hmatch⟩ := List.exists_of_findSome?_eq_some h
    exact matchProvider_key_suffix hmatch
  · exact matchAws_key_suffix h

/-- A key is the bare value or an end of the decoded path. -/
theorem splitObjectReference_key (T : Tables) (env : Env) (value : Str) :
    (splitObjectReference T env value).key = lstripChar '/' (strip value) ∨
      ∃ parsed, urlparse T (strip value) = some parsed ∧
        (splitObjectReference T env value).key <:+ unquote parsed.path := by
  unfold splitObjectReference
  simp only
  split_ifs with hhttp
  · exact .inl rfl
  · cases hparse : urlparse T (strip value) with
    | none => exact .inl rfl
    | some parsed =>
        refine .inr ⟨parsed, rfl, ?_⟩
        cases hsplit : splitS3StyleUrl T env (lstripChar '/' (unquote parsed.path))
            parsed.netloc with
        | none =>
            simp only [hsplit]
            exact lstripChar_suffix '/' _
        | some r =>
            simp only [hsplit]
            have hkey := splitS3StyleUrl_key_suffix hsplit
            exact (lstripChar_suffix '/' _).trans (hkey.trans (lstripChar_suffix '/' _))

end StorageReconciler
