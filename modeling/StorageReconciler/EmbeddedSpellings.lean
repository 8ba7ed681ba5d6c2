import StorageReconciler.EmbeddedKeys

/-!
# Spellings of an address inside a text

An address may be written in several ways, and the scanner stops at two of the
characters that may stay raw.  A third one opens the parameters of the last
segment.  Whatever is cut off is lost from the key, and nothing found later in
the address can give the key back.
-/

namespace StorageReconciler

open Strings Patterns UrlSplit PercentCoding

/-- What a path may contain unencoded: `pchar` without triplets, and `/`. -/
def isPathChar (c : Char) : Bool :=
  c.isAlphanum || "-._~!$&'()*+,;=:@/".toList.contains c

/-- Neither the scanner nor the split of the parameters cuts the path. -/
def IsUncut (path : Str) : Prop :=
  '\'' ∉ path ∧ ')' ∉ path ∧ ';' ∉ path.rtakeWhile (· != '/')

instance (path : Str) : Decidable (IsUncut path) :=
  inferInstanceAs (Decidable (_ ∧ _ ∧ _))

/-! ## The first match -/

theorem afterScheme_http {p : Str} (hp : IsHttpScheme p) (rest : Str) :
    afterScheme (p ++ ':' :: '/' :: '/' :: rest) = some rest := by
  have hlit := forall₂_reEq_map_toLower p
  rcases hp with hp | hp
  · rw [hp] at hlit
    have hshort : matchLiteral "https://".toList (p ++ ':' :: '/' :: '/' :: rest) = none :=
      matchLiteral_append_left "s://".toList hlit
    have hlong : matchLiteral "http://".toList (p ++ ':' :: '/' :: '/' :: rest) = some rest :=
      matchLiteral_append_left "://".toList hlit
    rw [afterScheme, hshort, hlong, Option.none_or]
  · rw [hp] at hlit
    have hlong : matchLiteral "https://".toList (p ++ ':' :: '/' :: '/' :: rest) = some rest :=
      matchLiteral_append_left "://".toList hlit
    rw [afterScheme, hlong, Option.some_or]

theorem urlAt_http {p body tail : Str} (hp : IsHttpScheme p) (hbody : body ≠ [])
    (hurl : ∀ c ∈ body, isUrlChar c = true)
    (htail : ∀ c, tail.head? = some c → isUrlChar c = false) :
    urlAt (p ++ ':' :: '/' :: '/' :: (body ++ tail)) =
      some (p ++ ':' :: '/' :: '/' :: body) := by
  have htake : (body ++ tail).takeWhile isUrlChar = body := by
    cases tail with
    | nil => simpa using hurl
    | cons c tail =>
        rw [takeWhile_append_stop (htail c rfl), List.takeWhile_eq_self_iff.mpr hurl]
  have hscheme : p ++ ':' :: '/' :: '/' :: (body ++ tail) =
      (p ++ "://".toList) ++ (body ++ tail) := by simp
  have hafter := afterScheme_http hp (body ++ tail)
  rw [hscheme] at hafter ⊢
  rw [urlAt_append_scheme hafter, htake, if_neg hbody]
  simp

theorem embeddedUrls_http {p body tail : Str} (hp : IsHttpScheme p) (hbody : body ≠ [])
    (hurl : ∀ c ∈ body, isUrlChar c = true)
    (htail : ∀ c, tail.head? = some c → isUrlChar c = false) :
    embeddedUrls (p ++ ':' :: '/' :: '/' :: (body ++ tail)) =
      (p ++ ':' :: '/' :: '/' :: body) :: embeddedUrls tail := by
  have hat := urlAt_http hp hbody hurl htail
  obtain ⟨a, p', rfl⟩ := List.exists_cons_of_ne_nil hp.ne_nil
  simp only [List.cons_append] at hat
  simp only [List.cons_append, embeddedUrls, embeddedUrlsFrom, hat, List.length_cons,
    Nat.add_sub_cancel, List.cons.injEq, true_and]
  cases tail with
  | nil =>
      rw [List.append_nil, embeddedUrlsFrom_length _ le_rfl]
      rfl
  | cons c tail =>
      have hc := htail c rfl
      have hassoc : p' ++ ':' :: '/' :: '/' :: (body ++ c :: tail) =
          (p' ++ ':' :: '/' :: '/' :: body) ++ c :: tail := by simp
      have hstop : embeddedUrlsFrom 0 (c :: tail) = embeddedUrls tail :=
        embeddedUrls_append hc [] tail
      rw [hassoc, embeddedUrlsFrom_append hc le_rfl, embeddedUrlsFrom_length _ le_rfl, hstop]
      rfl

/-! ## What is cut off -/

theorem isAscii_of_isPathChar {c : Char} (hc : isPathChar c = true) : isAscii c = true := by
  rcases Bool.or_eq_true_iff.mp hc with hc | hc
  · exact isAscii_of_isAlphanum hc
  · have hall : ∀ d ∈ "-._~!$&'()*+,;=:@/".toList, isAscii d = true := by decide
    exact hall c (by simpa [List.contains_eq_mem] using hc)

theorem isPathChar_ne_percent {c : Char} (hc : isPathChar c = true) : c ≠ '%' := by
  rintro rfl
  exact absurd hc (by decide)

theorem isAscii_of_spells {path k : Str} (h : Spells (isPathChar · = true) path k) :
    ∀ c ∈ path, isAscii c = true := by
  intro c hc
  rcases h.mem hc with hc | rfl | ⟨n, hn⟩
  · exact isAscii_of_isPathChar hc
  · decide
  · exact hexDigit_isAscii hn

theorem eq_of_stop_of_spells {path k : Str} (h : Spells (isPathChar · = true) path k) {c : Char}
    (hc : c ∈ path) (hstop : isUrlChar c = false) : c = '\'' ∨ c = ')' := by
  have hpath : isPathChar c = true ∨ c = '%' ∨ (hexDigit c).isSome = true := by
    rcases h.mem hc with hc | hc | ⟨n, hn⟩
    · exact .inl hc
    · exact .inr (.inl hc)
    · exact .inr (.inr (by simp [hn]))
  have hall : ∀ d, isAscii d = true →
      (isPathChar d = true ∨ d = '%' ∨ (hexDigit d).isSome = true) → isUrlChar d = false →
      d = '\'' ∨ d = ')' := fun d hd ↦
    forall_ascii (P := fun d ↦ (isPathChar d = true ∨ d = '%' ∨ (hexDigit d).isSome = true) →
      isUrlChar d = false → d = '\'' ∨ d = ')') (by decide +kernel) hd
  exact hall c (isAscii_of_spells h c hc) hpath hstop

theorem notMem_of_spells {path k : Str}
    (h : Spells (isPathChar · = true) path k) {c : Char}
    (hc : isPathChar c = false ∧ c ≠ '%' ∧ hexDigit c = none) : c ∉ path := by
  intro hmem
  rcases h.mem hmem with hraw | heq | ⟨n, hn⟩
  · simp [hc.1] at hraw
  · exact hc.2.1 heq
  · simp [hc.2.2] at hn

theorem cutParams_cases (path : Str) :
    (';' ∉ path.rtakeWhile (· != '/') ∧ cutParams path = path) ∨
      (';' ∈ path.rtakeWhile (· != '/') ∧ ∃ rest, path = cutParams path ++ ';' :: rest) := by
  by_cases h : ';' ∈ path.rtakeWhile (· != '/')
  · refine .inr ⟨h, (partition ';' (path.rtakeWhile (· != '/'))).2, ?_⟩
    have hc : (path.rtakeWhile (· != '/')).contains ';' = true := by
      simpa [List.contains_eq_mem] using h
    obtain ⟨s, t, hst, hs⟩ := List.eq_append_cons_of_mem h
    simp only [cutParams, splitParams, hc, if_true]
    rw [hst, partition_append hs, List.append_assoc, ← hst, List.rdropWhile_append_rtakeWhile]
  · exact .inl ⟨h, cutParams_of_notMem h⟩

/-- The part of a path that a key is read from. -/
def readPart (path : Str) : Str := cutParams (path.takeWhile isUrlChar)

theorem readPart_cases {path k : Str} (h : Spells (isPathChar · = true) path k) :
    (IsUncut path ∧ readPart path = path) ∨
      (¬IsUncut path ∧ ∃ c rest, path = readPart path ++ c :: rest ∧
        (c = '\'' ∨ c = ')' ∨ c = ';')) := by
  have hsplit := List.takeWhile_append_dropWhile (p := isUrlChar) (l := path)
  cases hdrop : path.dropWhile isUrlChar with
  | nil =>
      have hall : ∀ c ∈ path, isUrlChar c = true := List.dropWhile_eq_nil_iff.mp hdrop
      have htake : path.takeWhile isUrlChar = path := List.takeWhile_eq_self_iff.mpr hall
      have hquote : '\'' ∉ path := fun hc ↦ absurd (hall _ hc) (by decide)
      have hparen : ')' ∉ path := fun hc ↦ absurd (hall _ hc) (by decide)
      rw [readPart, htake]
      rcases cutParams_cases path with ⟨hsemi, hcut⟩ | ⟨hsemi, rest, hcut⟩
      · exact .inl ⟨⟨hquote, hparen, hsemi⟩, hcut⟩
      · exact .inr ⟨fun hplain ↦ hplain.2.2 hsemi, ';', rest, hcut, by simp⟩
  | cons c rest =>
      have hstop : isUrlChar c = false := by
        have := List.head?_dropWhile_not isUrlChar path
        rw [hdrop] at this
        simpa using this
      rw [hdrop] at hsplit
      have hmem : c ∈ path := by
        rw [← hsplit]
        simp
      have hc := eq_of_stop_of_spells h hmem hstop
      have hnot : ¬IsUncut path := by
        rintro ⟨hquote, hparen, _⟩
        rcases hc with rfl | rfl
        · exact hquote hmem
        · exact hparen hmem
      refine .inr ⟨hnot, ?_⟩
      rcases cutParams_cases (path.takeWhile isUrlChar) with ⟨_, hcut⟩ | ⟨_, rest', hcut⟩
      · refine ⟨c, rest, ?_, hc.imp_right .inl⟩
        rw [readPart, hcut, hsplit]
      · refine ⟨';', rest' ++ c :: rest, ?_, by simp⟩
        rw [readPart]
        calc
          path = path.takeWhile isUrlChar ++ c :: rest := hsplit.symm
          _ = (cutParams (path.takeWhile isUrlChar) ++ ';' :: rest') ++ c :: rest := by rw [← hcut]
          _ = cutParams (path.takeWhile isUrlChar) ++ ';' :: (rest' ++ c :: rest) := by simp

theorem separates_of_cut {c : Char} (hc : c = '\'' ∨ c = ')' ∨ c = ';') : Separates c := by
  rcases hc with rfl | rfl | rfl <;> decide

theorem unquote_of_spells {path k : Str} (h : Spells (isPathChar · = true) path k) :
    unquote path = k :=
  h.unquote_eq fun _ ↦ isPathChar_ne_percent

/-! ## Later matches -/

theorem eq_of_map_toLower {s : Str} (hs : ∀ c ∈ s, isAscii c = true)
    (h : s.map Char.toLower = "://".toList) : s = "://".toList := by
  have hkeep : ∀ c, isAscii c = true → c.toLower ∈ "://".toList → c.toLower = c := fun c hc ↦
    forall_ascii (P := fun c ↦ c.toLower ∈ "://".toList → c.toLower = c)
      (by decide) hc
  have hself : s.map Char.toLower = s := by
    calc
      s.map Char.toLower = s.map id :=
        List.map_congr_left fun c hc ↦ hkeep c (hs c hc) (h ▸ List.mem_map_of_mem hc)
      _ = s := List.map_id s
  exact hself ▸ h

theorem IsUrlScheme.exists_http {s : Str} (h : IsUrlScheme s) (hs : ∀ c ∈ s, isAscii c = true) :
    ∃ p, IsHttpScheme p ∧ s = p ++ "://".toList := by
  have hcut : ∀ l, s.map Char.toLower = l ++ "://".toList →
      (s.take l.length).map Char.toLower = l ∧ s.drop l.length = "://".toList := by
    intro l hl
    refine ⟨by rw [List.map_take, hl, List.take_left' rfl], ?_⟩
    refine eq_of_map_toLower (fun c hc ↦ hs c (List.mem_of_mem_drop hc)) ?_
    rw [List.map_drop, hl, List.drop_left' rfl]
  rcases h with h | h
  · obtain ⟨htake, hdrop⟩ := hcut "https".toList (map_toLower_of_forall₂ hs h)
    exact ⟨_, .inr htake, by rw [← hdrop, List.take_append_drop]⟩
  · obtain ⟨htake, hdrop⟩ := hcut "http".toList (map_toLower_of_forall₂ hs h)
    exact ⟨_, .inl htake, by rw [← hdrop, List.take_append_drop]⟩

theorem length_unquote_cutParams {z k : Str} (h : Spells (isPathChar · = true) z k) :
    (unquote (cutParams z)).length ≤ k.length := by
  rcases cutParams_cases z with ⟨_, hcut⟩ | ⟨_, rest, hcut⟩
  · rw [hcut, unquote_of_spells h]
  · rw [hcut] at h
    obtain ⟨k₁, k₂, rfl, hread, _⟩ := Spells.split (by decide) h
    rw [unquote_of_spells hread, List.length_append]
    omega

theorem length_unquote_pathOf {rest k : Str} (h : Spells (isPathChar · = true) rest k) :
    (unquote (pathOf rest)).length ≤ k.length := by
  have hquery : '?' ∉ rest := notMem_of_spells h (by decide)
  have hfragment : '#' ∉ rest := notMem_of_spells h (by decide)
  have hraw : rawPathOf rest = rest.dropWhile (!endsNetloc ·) := by
    rw [rawPathOf, List.takeWhile_eq_self_iff]
    intro c hc
    have hmem := (List.dropWhile_suffix _).subset hc
    simp only [Bool.and_eq_true, bne_iff_ne, ne_eq]
    refine ⟨?_, ?_⟩ <;> rintro rfl
    · exact hfragment hmem
    · exact hquery hmem
  have hsplit := List.takeWhile_append_dropWhile (p := (!endsNetloc ·)) (l := rest)
  rw [pathOf, hraw]
  cases hdrop : rest.dropWhile (!endsNetloc ·) with
  | nil => exact Nat.zero_le _
  | cons c z =>
      have hmem : c ∈ rest := by
        rw [← hsplit, hdrop]
        simp
      have hends : endsNetloc c = true := by
        have := List.head?_dropWhile_not (!endsNetloc ·) rest
        rw [hdrop] at this
        simpa using this
      simp only [endsNetloc, Bool.or_eq_true, beq_iff_eq] at hends
      obtain rfl : c = '/' := by
        rcases hends with (rfl | rfl) | rfl
        · rfl
        · exact absurd hmem hquery
        · exact absurd hmem hfragment
      rw [hdrop] at hsplit
      rw [← hsplit] at h
      obtain ⟨k₁, k₂, rfl, _, hz⟩ := Spells.split separates_slash h
      have hle := length_unquote_cutParams hz
      have hcut : (splitParams ('/' :: z)).1 = '/' :: cutParams z := cutParams_append [] z
      rw [hcut, unquote_cons (by decide)]
      simp only [List.length_cons, List.length_append]
      omega

theorem isSpace_of_isUrlChar {c : Char} (hc : isUrlChar c = true) : isSpace c = false := by
  by_contra h
  simp [isUrlChar, h] at hc

theorem isUnsafe_of_isUrlChar {c : Char} (hc : isUrlChar c = true) : isUnsafe c = false := by
  by_contra h
  simp only [isUnsafe, Bool.not_eq_false, Bool.or_eq_true, beq_iff_eq] at h
  rcases h with (rfl | rfl) | rfl <;> exact absurd hc (by decide)

theorem isUrlChar_scheme {p : Str} (hp : IsHttpScheme p) :
    ∀ c ∈ p ++ "://".toList, isUrlChar c = true := by
  intro c hc
  rcases List.mem_append.mp hc with hc | hc
  · exact isUrlChar_of_isAlphanum (isAlpha_isAlphanum (hp.isAlpha hc))
  · have hall : ∀ d ∈ "://".toList, isUrlChar d = true := by decide
    exact hall c hc

theorem lstripChar_http {p : Str} (hp : IsHttpScheme p) (rest : Str) :
    lstripChar '/' (p ++ rest) = p ++ rest := by
  apply lstripChar_eq_self
  obtain ⟨a, p', rfl⟩ := List.exists_cons_of_ne_nil hp.ne_nil
  rintro ⟨rfl⟩
  exact absurd (hp.isAlpha (c := '/') (by simp)) (by decide)

/-- An address inside a spelling is read as itself or as something shorter than
what the spelling decodes to. -/
theorem key_of_mem_embeddedUrls {T : Tables} {env : Env} {y k url : Str}
    (h : Spells (isPathChar · = true) y k) (hurl : url ∈ embeddedUrls y) :
    ((splitObjectReference T env url).key = url ∧ ∀ c ∈ url, isUrlChar c = true) ∨
      (splitObjectReference T env url).key.length ≤ k.length := by
  obtain ⟨x₀, after, rfl, hat, _⟩ := mem_embeddedUrls_iff.mp hurl
  obtain ⟨s, body, tail, hs, _, rfl, htext, _, hbody, htail⟩ := urlAt_eq_some hat
  obtain rfl : after = tail := List.append_cancel_left htext
  have hascii : ∀ c ∈ s, isAscii c = true := fun c hc ↦ isAscii_of_spells h c (by simp [hc])
  obtain ⟨p, hp, rfl⟩ := hs.exists_http hascii
  have hchars : ∀ c ∈ p ++ "://".toList ++ body, isUrlChar c = true := by
    intro c hc
    rcases List.mem_append.mp hc with hc | hc
    · exact isUrlChar_scheme hp c hc
    · exact hbody c hc
  have hstrip : strip (p ++ "://".toList ++ body) = p ++ "://".toList ++ body :=
    strip_of_forall fun c hc ↦ isSpace_of_isUrlChar (hchars c hc)
  rcases splitObjectReference_key T env (p ++ "://".toList ++ body) with hkey | ⟨r, hr, hkey⟩
  · refine .inl ⟨?_, hchars⟩
    rw [hkey, hstrip, List.append_assoc, lstripChar_http hp]
  · right
    -- the body is cut off at separating characters on both sides
    have hslash : x₀ ++ (p ++ "://".toList ++ body ++ after) =
        (x₀ ++ p ++ ":/".toList) ++ '/' :: (body ++ after) := by simp
    rw [hslash] at h
    obtain ⟨k₁, k₂, rfl, _, hrest⟩ := Spells.split separates_slash h
    obtain ⟨k₃, hk₃, hspell⟩ : ∃ k₃, k₃.length ≤ k₂.length ∧
        Spells (isPathChar · = true) body k₃ := by
      cases after with
      | nil => exact ⟨k₂, le_rfl, by simpa using hrest⟩
      | cons c after =>
          have hc := eq_of_stop_of_spells hrest (by simp) (htail c rfl)
          obtain ⟨k₃, k₄, rfl, hspell, _⟩ :=
            Spells.split (separates_of_cut (hc.imp_right .inl)) hrest
          exact ⟨k₃, by simp, hspell⟩
    have hparse := urlparse_http T hp fun c hc ↦ isUnsafe_of_isUrlChar (hbody c hc)
    have hform : p ++ "://".toList ++ body = p ++ ':' :: '/' :: '/' :: body := by simp
    rw [hstrip, hform] at hr
    rw [hr, Option.map_some] at hparse
    split_ifs at hparse with hok
    have hpath : r.path = pathOf body :=
      (Prod.ext_iff.mp (Prod.ext_iff.mp (Option.some.inj hparse)).2).2
    have hle := length_unquote_pathOf hspell
    have hkeylen := hkey.length_le
    rw [hpath] at hkeylen
    simp only [List.length_append, List.length_cons]
    omega

theorem later_key_ne {T : Tables} {env : Env} {path k url : Str}
    (h : Spells (isPathChar · = true) path k)
    (hurl : url ∈ embeddedUrls (path.dropWhile isUrlChar)) :
    (splitObjectReference T env url).key ≠ k := by
  have hsplit := List.takeWhile_append_dropWhile (p := isUrlChar) (l := path)
  cases hdrop : path.dropWhile isUrlChar with
  | nil =>
      rw [hdrop] at hurl
      simp [embeddedUrls, embeddedUrlsFrom] at hurl
  | cons c rest =>
      have hstop : isUrlChar c = false := by
        have := List.head?_dropWhile_not isUrlChar path
        rw [hdrop] at this
        simpa using this
      have hrest : embeddedUrls (c :: rest) = embeddedUrls rest := embeddedUrls_append hstop [] rest
      rw [hdrop, hrest] at hurl
      rw [hdrop] at hsplit
      rw [← hsplit] at h
      have hc := eq_of_stop_of_spells h (by simp) hstop
      obtain ⟨k₁, k₂, rfl, _, hspell⟩ := Spells.split (separates_of_cut (hc.imp_right .inl)) h
      rcases key_of_mem_embeddedUrls hspell hurl with ⟨hkey, hchars⟩ | hle
      · intro heq
        have hmem : c ∈ url := by
          rw [← hkey, heq]
          simp
        simp [hchars c hmem] at hstop
      · intro heq
        rw [heq] at hle
        simp only [List.length_append, List.length_cons] at hle
        omega

/-! ## The whole address -/

/-- The address of an object below a path-style endpoint. -/
def pathStyleUrl (e : Endpoint) (b path : Str) : Str := e.url ++ '/' :: (b ++ '/' :: path)

/-- A provider that keeps the bucket in the path is the first to recognise the host. -/
def IsPathStyleHost (env : Env) (netloc : Str) : Prop :=
  (env.s3Providers.find? (·.recognises (netloc.map Char.toLower))).all (·.forcePathStyle) = true

instance (env : Env) (netloc : Str) : Decidable (IsPathStyleHost env netloc) :=
  inferInstanceAs (Decidable (_ = _))

theorem isUrlChar_of_isHostChar {c : Char} (hc : isHostChar c = true) : isUrlChar c = true :=
  forall_ascii (P := fun c ↦ isHostChar c = true → isUrlChar c = true) (by decide)
    (isHostChar_ascii hc) hc

theorem embeddedUrls_pathStyleUrl {e : Endpoint} {b : Str} (hb : IsBucketName b) (path : Str) :
    embeddedUrls (pathStyleUrl e b path) =
      pathStyleUrl e b (path.takeWhile isUrlChar) :: embeddedUrls (path.dropWhile isUrlChar) := by
  have hbody : ∀ c ∈ e.netloc ++ '/' :: (b ++ '/' :: path.takeWhile isUrlChar),
      isUrlChar c = true := by
    intro c hc
    simp only [List.mem_append, List.mem_cons] at hc
    rcases hc with hc | rfl | hc | rfl | hc
    · exact isUrlChar_of_isHostChar (e.isHostChar c hc)
    · decide
    · exact isUrlChar_of_isHostChar (hb.isHostChar c hc)
    · decide
    · exact List.mem_takeWhile_imp hc
  have htail : ∀ c, (path.dropWhile isUrlChar).head? = some c → isUrlChar c = false := by
    intro c hc
    have := List.head?_dropWhile_not isUrlChar path
    rw [hc] at this
    simpa using this
  have hurl := embeddedUrls_http e.isHttpScheme (by simp) hbody htail
  have hsplit := List.takeWhile_append_dropWhile (p := isUrlChar) (l := path)
  have hform : ∀ x, pathStyleUrl e b x =
      e.scheme ++ ':' :: '/' :: '/' :: (e.netloc ++ '/' :: (b ++ '/' :: x)) := by
    intro x
    simp [pathStyleUrl, Endpoint.url]
  rw [hform, hform, ← hurl]
  nth_rewrite 1 [← hsplit]
  simp

theorem exists_find?_recognises {env : Env} {config : S3ProviderConfig} {e : Endpoint}
    (hconfig : config ∈ env.s3Providers) (hend : config.endpoint = some e)
    (hforce : config.forcePathStyle = true) :
    ∃ first, env.s3Providers.find? (·.recognises (e.netloc.map Char.toLower)) = some first := by
  have hrec : config.recognises (e.netloc.map Char.toLower) = true := by
    simp [S3ProviderConfig.recognises, hend, hforce]
  exact Option.isSome_iff_exists.mp (List.find?_isSome.mpr ⟨config, hconfig, hrec⟩)

theorem splitObjectReference_pathStyleUrl {T : Tables} {env : Env} {e : Endpoint}
    {first : S3ProviderConfig} {b x : Str} (hb : IsBucketName b) (hx : '?' ∉ x ∧ '#' ∉ x)
    (hurl : ∀ c ∈ x, isUrlChar c = true)
    (hfind : env.s3Providers.find? (·.recognises (e.netloc.map Char.toLower)) = some first) :
    if first.forcePathStyle = true then
      splitObjectReference T env (pathStyleUrl e b x) =
        ⟨some b, lstripChar '/' (unquote (cutParams x)), some first.key⟩
    else (splitObjectReference T env (pathStyleUrl e b x)).key =
        b ++ '/' :: unquote (cutParams x) := by
  have hform : pathStyleUrl e b x =
      e.scheme ++ ':' :: '/' :: '/' :: (e.netloc ++ '/' :: (b ++ '/' :: x ++ [])) := by
    simp [pathStyleUrl, Endpoint.url]
  have hstrip : strip (pathStyleUrl e b x) = pathStyleUrl e b x := by
    refine strip_of_forall fun c hc ↦ isSpace_of_isUrlChar ?_
    simp only [pathStyleUrl, Endpoint.url, List.append_assoc, List.mem_append, List.cons_append,
      List.mem_cons] at hc
    rcases hc with hc | rfl | rfl | rfl | hc | rfl | hc | rfl | hc
    · exact isUrlChar_scheme e.isHttpScheme c (List.mem_append_left _ hc)
    · decide
    · decide
    · decide
    · exact isUrlChar_of_isHostChar (e.isHostChar c hc)
    · decide
    · exact isUrlChar_of_isHostChar (hb.isHostChar c hc)
    · decide
    · exact hurl c hc
  have hclean : ∀ c ∈ x ++ [], isUnsafe c = false := fun c hc ↦
    isUnsafe_of_isUrlChar (hurl c (by simpa using hc))
  have hclean' := hb.append_isUnsafe hclean
  split_ifs with hforce
  · exact splitObjectReference_pathStyle e.isHttpScheme e.isHostChar hb hx (by simp) hclean hfind
      hforce (hstrip.trans hform)
  · have hnoTail : ∀ c, ([] : Str).head? = some c → c = '?' ∨ c = '#' := by simp
    obtain ⟨_, _, _, _, hread⟩ := splitObjectReference_virtual (T := T) e.isHttpScheme e.isHostChar
      (hb.append_notMem hx) hnoTail hclean' hfind (by simpa using hforce) (hstrip.trans hform)
    rw [hread, cutParams_append, lstripChar_unquote_bucket hb]

theorem read_key_eq_iff {path k : Str} (hpath : Spells (isPathChar · = true) path k)
    (hk : k.head? ≠ some '/') :
    lstripChar '/' (unquote (readPart path)) = k ↔ IsUncut path := by
  rcases readPart_cases hpath with ⟨hplain, hread⟩ | ⟨hcut, c, rest, hsplit, hc⟩
  · rw [hread, unquote_of_spells hpath, lstripChar_eq_self hk]
    simp [hplain]
  · refine iff_of_false ?_ hcut
    rw [hsplit] at hpath
    obtain ⟨k₁, k₂, rfl, hread, _⟩ := Spells.split (separates_of_cut hc) hpath
    have hlen := length_lstripChar_le '/' (unquote (readPart path))
    rw [unquote_of_spells hread] at hlen ⊢
    intro heq
    rw [heq] at hlen
    simp only [List.length_append, List.length_cons] at hlen
    omega

theorem bucket_append_ne {b path k : Str} (hb : IsBucketName b)
    (hpath : Spells (isPathChar · = true) path k) :
    b ++ '/' :: unquote (readPart path) ≠ k := by
  rcases readPart_cases hpath with ⟨_, hread⟩ | ⟨_, c, rest, hsplit, hc⟩
  · rw [hread, unquote_of_spells hpath]
    intro heq
    have := congrArg List.length heq
    simp only [List.length_append, List.length_cons] at this
    omega
  · rw [hsplit] at hpath
    obtain ⟨k₁, k₂, rfl, hread, _⟩ := Spells.split (separates_of_cut hc) hpath
    rw [unquote_of_spells hread]
    intro heq
    -- the part cut off would be a rearrangement of the bucket and its slash
    have hperm : (c :: k₂).Perm (b ++ ['/']) := by
      apply (List.perm_append_left_iff k₁).mp
      have hcomm : ((b ++ ['/']) ++ k₁).Perm (k₁ ++ (b ++ ['/'])) := List.perm_append_comm
      rw [← heq]
      simpa using hcomm
    have hmem : c ∈ b ++ ['/'] := hperm.subset List.mem_cons_self
    rcases List.mem_append.mp hmem with hmem | hmem
    · rcases hc with rfl | rfl | rfl <;> exact hb.notMem (by decide) hmem
    · rcases hc with rfl | rfl | rfl <;> simp at hmem

/-- Which spelled addresses give their key back. -/
theorem mem_extract_pathStyleUrl_iff {T : Tables} {env : Env} {config : S3ProviderConfig}
    {e : Endpoint} {b path k : Str} {buckets : Finset Str} (hconfig : config ∈ env.s3Providers)
    (hend : config.endpoint = some e) (hforce : config.forcePathStyle = true)
    (hb : IsBucketName b) (hmem : b ∈ buckets) (hk : k.head? ≠ some '/')
    (hpath : Spells (isPathChar · = true) path k) :
    k ∈ extractEmbeddedKeys T env (pathStyleUrl e b path) buckets ↔
      k ≠ [] ∧ IsUncut path ∧ IsPathStyleHost env e.netloc := by
  obtain ⟨first, hfind⟩ := exists_find?_recognises hconfig hend hforce
  have hquery : '?' ∉ path := notMem_of_spells hpath (by decide)
  have hfragment : '#' ∉ path := notMem_of_spells hpath (by decide)
  have htake := List.takeWhile_prefix isUrlChar (l := path)
  have hread := splitObjectReference_pathStyleUrl (T := T) (x := path.takeWhile isUrlChar) hb
    ⟨fun h ↦ hquery (htake.subset h), fun h ↦ hfragment (htake.subset h)⟩
    (fun c hc ↦ List.mem_takeWhile_imp hc) hfind
  have hfirst : k ∈ extractEmbeddedKeys T env (pathStyleUrl e b path) buckets ↔
      embeddedKey? T env buckets (pathStyleUrl e b (path.takeWhile isUrlChar)) = some k := by
    rw [mem_extractEmbeddedKeys, embeddedUrls_pathStyleUrl hb]
    constructor
    · rintro ⟨url, hurl, hkey⟩
      rcases List.mem_cons.mp hurl with rfl | hurl
      · exact hkey
      · exact absurd (embeddedKey?_eq_some_iff.mp hkey).1 (later_key_ne hpath hurl)
    · exact fun hkey ↦ ⟨_, List.mem_cons_self, hkey⟩
  have hstyle : IsPathStyleHost env e.netloc ↔ first.forcePathStyle = true := by
    simp [IsPathStyleHost, hfind]
  rw [hfirst, embeddedKey?_eq_some_iff, hstyle]
  by_cases hpathStyle : first.forcePathStyle = true
  · rw [if_pos hpathStyle] at hread
    have hkey := read_key_eq_iff hpath hk
    rw [readPart] at hkey
    rw [hread]
    simp only [hkey, Option.some.injEq, forall_eq', hmem, hpathStyle, and_true]
    exact and_comm
  · rw [if_neg hpathStyle] at hread
    refine iff_of_false (fun h ↦ ?_) fun h ↦ hpathStyle h.2.2
    exact bucket_append_ne hb hpath (hread.symm.trans h.1)

/-- A quoted address keeps its key whatever text surrounds it exactly when no
raw `'` or `)` stops the scanner, no raw `;` opens parameters in the last
segment, and no virtual-hosted provider tried earlier claims the host. -/
theorem embedded_url_protects_iff {T : Tables} {env : Env} {config : S3ProviderConfig}
    {e : Endpoint} {b path k : Str} {buckets : Finset Str} (hconfig : config ∈ env.s3Providers)
    (hend : config.endpoint = some e) (hforce : config.forcePathStyle = true)
    (hb : IsBucketName b) (hmem : b ∈ buckets) (hk : k.head? ≠ some '/')
    (hpath : Spells (isPathChar · = true) path k) :
    (∀ before after : Str, k ∈ extractEmbeddedKeys T env
        (before ++ '"' :: (pathStyleUrl e b path ++ '"' :: after)) buckets) ↔
      k ≠ [] ∧ IsUncut path ∧ IsPathStyleHost env e.netloc := by
  have hiff := mem_extract_pathStyleUrl_iff (T := T) hconfig hend hforce hb hmem hk hpath
  have hquote : isUrlChar '"' = false := by decide
  constructor
  · intro h
    have h0 := h [] []
    rw [extractEmbeddedKeys_append hquote, extractEmbeddedKeys_append hquote] at h0
    have hempty : extractEmbeddedKeys T env [] buckets = ∅ := rfl
    simpa [hempty, hiff] using h0
  · intro h before after
    rw [extractEmbeddedKeys_append hquote, extractEmbeddedKeys_append hquote]
    exact Finset.mem_union_right _ (Finset.mem_union_left _ (hiff.mpr h))

theorem isBucketName_scola : IsBucketName "scola".toList := ⟨by decide, by decide⟩

theorem embedded_url_protects_iff_photo :
    (∀ before after : Str, "img/photo 1.png".toList ∈ extractEmbeddedKeys Tables.ascii sgp1Env
        (before ++ '"' :: (pathStyleUrl sgp1Endpoint "scola".toList "img/photo%201.png".toList ++
          '"' :: after)) {"scola".toList}) ↔
      "img/photo 1.png".toList ≠ [] ∧ IsUncut "img/photo%201.png".toList ∧
        IsPathStyleHost sgp1Env sgp1Endpoint.netloc :=
  embedded_url_protects_iff (List.mem_singleton_self sgp1Provider) rfl rfl
    isBucketName_scola (by decide) (by decide)
    ((Spells.refl (s := "img/photo".toList) (by decide)).append
      (.encoded (c := ' ') (.cons (by decide) .nil) (.refl (by decide))))

/-- A closing parenthesis ends the match, so `photo(1).png` is read as `photo(1`. -/
theorem embedded_url_parenthesis_lost :
    ¬∀ (T : Tables) (env : Env) (config : S3ProviderConfig) (e : Endpoint) (b path k : Str)
      (buckets : Finset Str), config ∈ env.s3Providers → config.endpoint = some e →
      config.forcePathStyle = true → IsBucketName b → b ∈ buckets → k.head? ≠ some '/' →
      Spells (isPathChar · = true) path k → ∀ before after : Str,
      k ∈ extractEmbeddedKeys T env
        (before ++ '"' :: (pathStyleUrl e b path ++ '"' :: after)) buckets := by
  intro h
  have hlost := h Tables.ascii sgp1Env sgp1Provider sgp1Endpoint "scola".toList
    "photo(1).png".toList "photo(1).png".toList {"scola".toList} (by simp [sgp1Env]) rfl rfl
    isBucketName_scola (by decide) (by decide) (.refl (by decide))
    "<img src=".toList ">".toList
  exact absurd hlost (by decide)

end StorageReconciler
