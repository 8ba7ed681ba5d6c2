import StorageReconciler.EscapedScan

/-!
# Rich text inside a JSON document

An address keeps its key in the escaped text when escaping leaves alone the
part of the path that is read, and what is swallowed behind the address stays
behind that part.  A text all of whose addresses are of this kind keeps every
key, and no other text does that has a single address in it.
-/

namespace StorageReconciler

open Strings Patterns UrlSplit PercentCoding JsonEscape

/-! ## Decoding an escaped path -/

theorem separates_of_isEscaped {c : Char} (hc : isEscaped c = true) : Separates c :=
  forall_escaped (P := Separates) (by decide) hc

theorem unquote_append_of_notMem {a : Str} (ha : '%' ∉ a) (z : Str) :
    unquote (a ++ z) = a ++ unquote z := by
  induction a with
  | nil => rfl
  | cons c a ih =>
      have hc : c ≠ '%' := by
        rintro rfl
        simp at ha
      rw [List.cons_append, unquote_cons hc, ih fun h ↦ ha (List.mem_cons_of_mem c h)]
      rfl

theorem unquote_append_of_head {z : Str} (hz : ∀ c, z.head? = some c → Separates c) (x : Str) :
    unquote (x ++ z) = unquote x ++ unquote z := by
  cases z with
  | nil => simp
  | cons c z =>
      have hc := hz c rfl
      rw [unquote_append hc, unquote_cons hc.2.1]

theorem unquote_jsonEscape_cons {c : Char} (hc : isEscaped c = true) (x s more : Str) :
    unquote (x ++ (jsonEscape (c :: s) ++ more)) =
      unquote x ++ '\\' :: (escapeTail c ++ unquote (jsonEscape s ++ more)) := by
  have htail : '%' ∉ escapeTail c :=
    forall_escaped (P := fun c ↦ '%' ∉ escapeTail c) (by decide) hc
  calc
    unquote (x ++ (jsonEscape (c :: s) ++ more)) =
        unquote (x ++ '\\' :: (escapeTail c ++ (jsonEscape s ++ more))) := by
      rw [jsonEscape_cons_escaped hc, List.cons_append, List.append_assoc]
    _ = unquote x ++ '\\' :: unquote (escapeTail c ++ (jsonEscape s ++ more)) :=
      unquote_append (by decide) _ _
    _ = unquote x ++ '\\' :: (escapeTail c ++ unquote (jsonEscape s ++ more)) := by
      rw [unquote_append_of_notMem htail]

theorem exists_first_escaped (s : Str) :
    (∀ c ∈ s, isEscaped c = false) ∨ ∃ s₁ c s₂, s = s₁ ++ c :: s₂ ∧
      (∀ d ∈ s₁, isEscaped d = false) ∧ isEscaped c = true := by
  induction s with
  | nil => simp
  | cons a s ih =>
      cases ha : isEscaped a with
      | true => exact .inr ⟨[], a, s, rfl, by simp, ha⟩
      | false =>
          rcases ih with hall | ⟨s₁, c, s₂, rfl, hs₁, hc⟩
          · exact .inl (List.forall_mem_cons.mpr ⟨ha, hall⟩)
          · exact .inr ⟨a :: s₁, c, s₂, rfl, List.forall_mem_cons.mpr ⟨ha, hs₁⟩, hc⟩

theorem length_unquote_le_jsonEscape (s : Str) {more : Str}
    (hmore : ∀ c, more.head? = some c → Separates c) :
    (unquote s).length ≤ (unquote (jsonEscape s ++ more)).length := by
  induction hn : s.length using Nat.strong_induction_on generalizing s with
  | _ n ih =>
      rcases exists_first_escaped s with hall | ⟨s₁, c, s₂, rfl, hs₁, hc⟩
      · rw [jsonEscape_of_forall hall, unquote_append_of_head hmore, List.length_append]
        omega
      · have hlt : s₂.length < n := by
          rw [← hn]
          simp only [List.length_append, List.length_cons]
          omega
        have hle := ih s₂.length hlt s₂ rfl
        have hform : jsonEscape (s₁ ++ c :: s₂) ++ more =
            s₁ ++ (jsonEscape (c :: s₂) ++ more) := by
          rw [jsonEscape_append, jsonEscape_of_forall hs₁, List.append_assoc]
        rw [hform, unquote_jsonEscape_cons hc, unquote_append (separates_of_isEscaped hc)]
        simp only [List.length_append, List.length_cons]
        omega

/-- A path that escaping changes decodes to something that differs, and is
longer, from some point on. -/
theorem unquote_diverges {s more : Str} (hmore : ∀ c, more.head? = some c → c = ';' ∨ c = '\\')
    (h : ¬((∀ c ∈ s, isEscaped c = false) ∧ more = [])) :
    ∃ u v v', unquote s = u ++ v ∧ unquote (jsonEscape s ++ more) = u ++ v' ∧
      v.length < v'.length ∧ (∀ c, v.head? = some c → isEscaped c = true) ∧
      v'.head? ≠ some '/' := by
  have hsep : ∀ c, more.head? = some c → Separates c := by
    intro c hc
    rcases hmore c hc with rfl | rfl <;> decide
  rcases exists_first_escaped s with hall | ⟨s₁, c, s₂, rfl, hs₁, hc⟩
  · cases more with
    | nil => exact absurd ⟨hall, rfl⟩ h
    | cons d more =>
        have hd := hsep d rfl
        refine ⟨unquote s, [], unquote (d :: more), by simp, ?_, ?_, by simp, ?_⟩
        · rw [jsonEscape_of_forall hall, unquote_append_of_head hsep]
        · rw [unquote_cons hd.2.1]
          simp
        · rw [unquote_cons hd.2.1]
          rcases hmore d rfl with rfl | rfl <;> simp
  · have hform : jsonEscape (s₁ ++ c :: s₂) ++ more = s₁ ++ (jsonEscape (c :: s₂) ++ more) := by
      rw [jsonEscape_append, jsonEscape_of_forall hs₁, List.append_assoc]
    have hle := length_unquote_le_jsonEscape s₂ hsep
    have hpos := List.length_pos_of_ne_nil (escapeTail_ne_nil hc)
    refine ⟨unquote s₁, c :: unquote s₂,
      '\\' :: (escapeTail c ++ unquote (jsonEscape s₂ ++ more)),
      unquote_append (separates_of_isEscaped hc) _ _, ?_, ?_, by simp [hc], by simp⟩
    · rw [hform, unquote_jsonEscape_cons hc]
    · simp only [List.length_cons, List.length_append]
      omega

theorem lstripChar_append {v : Str} (hv : v.head? ≠ some '/') (u : Str) :
    lstripChar '/' (u ++ v) = lstripChar '/' u ++ v := by
  induction u with
  | nil => exact lstripChar_eq_self hv
  | cons c u ih =>
      by_cases hc : c = '/'
      · subst hc
        simpa [lstripChar] using ih
      · simp [lstripChar, hc]

theorem unquote_ne_nil_of_key {T : Tables} {env : Env} {netloc path : Str}
    (hkey : (referenceAt T env netloc path).key ≠ []) : lstripChar '/' (unquote path) ≠ [] := by
  intro hnil
  apply hkey
  unfold referenceAt
  rw [hnil]
  cases hsplit : splitS3StyleUrl T env [] netloc with
  | none => rfl
  | some r =>
      have hsuffix := splitS3StyleUrl_key_suffix hsplit
      simp [List.suffix_nil.mp hsuffix, lstripChar]

theorem mem_partition_fst {u v : Str} {c : Char} (hu : '/' ∉ u) (hc : c ≠ '/') :
    c ∈ (partition '/' (u ++ c :: v)).1 := by
  have hall : ∀ d ∈ u, (d != '/') = true := by
    intro d hd
    rw [bne_iff_ne]
    rintro rfl
    exact hu hd
  rw [partition, List.takeWhile_append_of_pos hall]
  simp [hc]

theorem lstripChar_append_ne {v v' : Str} (hlen : v.length < v'.length)
    (hv : v.head? ≠ some '/') (hv' : v'.head? ≠ some '/') (w : Str) :
    lstripChar '/' (w ++ v') ≠ lstripChar '/' (w ++ v) := by
  intro heq
  rw [lstripChar_append hv', lstripChar_append hv] at heq
  have hlength := congrArg List.length heq
  simp only [List.length_append] at hlength
  omega

theorem partition_key_ne {u v v' : Str} (hlen : v.length < v'.length)
    (hv : ∀ c, v.head? = some c → isEscaped c = true) (hv' : v'.head? ≠ some '/')
    (hkey : lstripChar '/' (partition '/' (u ++ v)).2 ≠ [])
    (hbucket : ∀ c ∈ (partition '/' (u ++ v)).1, isEscaped c = false) :
    lstripChar '/' (partition '/' (u ++ v')).2 ≠ lstripChar '/' (partition '/' (u ++ v)).2 := by
  have hslashed : v.head? ≠ some '/' := fun h ↦ absurd (hv '/' h) (by decide)
  by_cases hslash : '/' ∈ u
  · obtain ⟨b, w, rfl, hb⟩ := List.eq_append_cons_of_mem hslash
    rw [List.append_assoc, List.append_assoc, List.cons_append, List.cons_append,
      partition_append hb, partition_append hb]
    exact lstripChar_append_ne hlen hslashed hv' w
  · exfalso
    cases v with
    | nil =>
        rw [List.append_nil, partition_of_notMem hslash] at hkey
        exact hkey rfl
    | cons c v =>
        have hc : c ≠ '/' := by
          rintro rfl
          exact hslashed rfl
        have hplain := hbucket c (mem_partition_fst hslash hc)
        rw [hv c rfl] at hplain
        cases hplain

/-- Paths that decode to different ends never lead to one key in scope. -/
theorem referenceAt_key_ne {T : Tables} {env : Env} {netloc path path' u v v' : Str}
    (hpath : unquote path = u ++ v) (hpath' : unquote path' = u ++ v')
    (hlen : v.length < v'.length) (hv : ∀ c, v.head? = some c → isEscaped c = true)
    (hv' : v'.head? ≠ some '/') (hkey : (referenceAt T env netloc path).key ≠ [])
    (hbucket : ∀ b, (referenceAt T env netloc path).bucket = some b →
      ∀ c ∈ b, isEscaped c = false) :
    (referenceAt T env netloc path').key ≠ (referenceAt T env netloc path).key := by
  have hslashed : v.head? ≠ some '/' := fun h ↦ absurd (hv '/' h) (by decide)
  have hself : ∀ w : Str, lstripChar '/' (lstripChar '/' w) = lstripChar '/' w :=
    fun w ↦ lstripChar_eq_self (head?_lstripChar_ne '/' w)
  have hdiffer := lstripChar_append_ne hlen hslashed hv' u
  rcases splitS3StyleUrl_cases T env netloc with ⟨hint, hin⟩ | ⟨b, hint, hin⟩ | hin
  · have hread : lstripChar '/' (unquote path) = lstripChar '/' u ++ v := by
      rw [hpath, lstripChar_append hslashed]
    have hread' : lstripChar '/' (unquote path') = lstripChar '/' u ++ v' := by
      rw [hpath', lstripChar_append hv']
    have hne := unquote_ne_nil_of_key hkey
    have hne' : lstripChar '/' (unquote path') ≠ [] := by
      have hpos : 0 < v'.length := Nat.zero_lt_of_lt hlen
      rw [hread']
      simp [List.ne_nil_of_length_pos hpos]
    unfold referenceAt at hkey hbucket ⊢
    rw [hin _ hne (head?_lstripChar_ne '/' _)] at hkey hbucket ⊢
    rw [hin _ hne' (head?_lstripChar_ne '/' _)]
    simp only at hkey hbucket ⊢
    rw [hread] at hkey hbucket ⊢
    rw [hread']
    exact partition_key_ne hlen hv hv' hkey (hbucket _ rfl)
  · simp only [referenceAt, hin, hself]
    rwa [hpath, hpath']
  · simp only [referenceAt, hin]
    rwa [hpath, hpath']

/-! ## Stable addresses -/

/-- An address that reads the same in the escaped text: either nothing about it
changes, or what changes is no part of its host and of the path that is read. -/
def IsJsonStable (T : Tables) (url after : Str) : Prop :=
  (jsonEscape url = url ∧ jsonRun after = []) ∨
    ∃ p rest, IsHttpScheme p ∧ url = p ++ ':' :: '/' :: '/' :: rest ∧
      netlocOk T (netlocOf rest) = true ∧ (∀ c ∈ netlocOf rest, isEscaped c = false) ∧
      KeepsPath rest (jsonRun after)

theorem jsonEscape_scheme {p : Str} (hp : IsHttpScheme p) (rest : Str) :
    jsonEscape (p ++ ':' :: '/' :: '/' :: rest) = p ++ ':' :: '/' :: '/' :: jsonEscape rest := by
  have hall : ∀ c ∈ p, isEscaped c = false := by
    intro c hc
    by_contra hesc
    have hno : c.isAlpha = false :=
      forall_escaped (P := fun c ↦ c.isAlpha = false) (by decide) (by simpa using hesc)
    simp [hp.isAlpha hc] at hno
  rw [jsonEscape_append, jsonEscape_of_forall hall, jsonEscape_cons_plain (by decide),
    jsonEscape_cons_plain (by decide), jsonEscape_cons_plain (by decide)]

theorem splitObjectReference_url {T : Tables} {env : Env} {p rest : Str} (hp : IsHttpScheme p)
    (hrest : ∀ c ∈ rest, isUrlChar c = true) :
    splitObjectReference T env (p ++ ':' :: '/' :: '/' :: rest) =
      if netlocOk T (netlocOf rest) then referenceAt T env (netlocOf rest) (pathOf rest)
      else ⟨none, p ++ ':' :: '/' :: '/' :: rest, none⟩ := by
  have hstrip : strip (p ++ ':' :: '/' :: '/' :: rest) = p ++ ':' :: '/' :: '/' :: rest := by
    refine strip_of_forall fun c hc ↦ isSpace_of_isUrlChar ?_
    have hform : p ++ ':' :: '/' :: '/' :: rest = (p ++ "://".toList) ++ rest := by simp
    rw [hform] at hc
    rcases List.mem_append.mp hc with hc | hc
    · exact isUrlChar_scheme hp c hc
    · exact hrest c hc
  rw [splitObjectReference_http hp (fun c hc ↦ isUnsafe_of_isUrlChar (hrest c hc)) hstrip, hstrip,
    lstripChar_http hp]

theorem isUrlChar_jsonRun (after : Str) : ∀ c ∈ jsonRun after, isUrlChar c = true := by
  intro c hc
  rw [← takeWhile_isUrlChar_jsonEscape] at hc
  exact List.mem_takeWhile_imp hc

theorem isUrlChar_escaped {rest : Str} (hrest : ∀ c ∈ rest, isUrlChar c = true) (after : Str) :
    ∀ c ∈ jsonEscape rest ++ jsonRun after, isUrlChar c = true := by
  intro c hc
  rcases List.mem_append.mp hc with hc | hc
  · exact isUrlChar_jsonEscape (fun d hd ↦ isDelimiter_of_isUrlChar (hrest d hd)) c hc
  · exact isUrlChar_jsonRun after c hc

theorem KeepsPath.exists_endsNetloc {rest swallowed : Str} (h : KeepsPath rest swallowed)
    (hhead : ∀ c, swallowed.head? = some c → c = '\\') :
    (∃ c ∈ rest, endsNetloc c = true) ∨ swallowed = [] := by
  by_contra hno
  obtain ⟨hends, hne⟩ := not_or.mp hno
  have hall : ∀ c ∈ rest, (!endsNetloc c) = true := fun c hc ↦ by
    simpa using fun hc' ↦ hends ⟨c, hc, hc'⟩
  have hraw : rawPathOf rest = [] := by
    rw [rawPathOf_eq, List.dropWhile_eq_nil_iff.mpr hall]
    rfl
  have hany : ¬rest.any isPathEnd = true := by
    intro hany
    obtain ⟨c, hc, hend⟩ := List.any_eq_true.mp hany
    exact hends ⟨c, hc, endsNetloc_of_isPathEnd hend⟩
  obtain ⟨c, s, rfl⟩ := List.exists_cons_of_ne_nil hne
  obtain rfl := hhead c rfl
  rcases h.2 with hnil | ⟨hsemi, _⟩
  · simp [pathGrowth, hany, isPathEnd] at hnil
  · simp [hraw] at hsemi

/-- The escaped address is read at the same host, by what its path has become. -/
theorem reference_jsonEscape {T : Tables} (env : Env) {p rest after : Str} (hp : IsHttpScheme p)
    (hrest : ∀ c ∈ rest, isUrlChar c = true) (hok : netlocOk T (netlocOf rest) = true)
    (hhost : ∀ c ∈ netlocOf rest, isEscaped c = false)
    (hends : (∃ c ∈ rest, endsNetloc c = true) ∨ jsonRun after = []) :
    splitObjectReference T env (jsonEscape (p ++ ':' :: '/' :: '/' :: rest) ++ jsonRun after) =
      referenceAt T env (netlocOf rest) (pathOf (jsonEscape rest ++ jsonRun after)) := by
  have hform : jsonEscape (p ++ ':' :: '/' :: '/' :: rest) ++ jsonRun after =
      p ++ ':' :: '/' :: '/' :: (jsonEscape rest ++ jsonRun after) := by
    rw [jsonEscape_scheme hp]
    simp
  have hnetloc : netlocOf (jsonEscape rest ++ jsonRun after) = netlocOf rest := by
    calc
      netlocOf (jsonEscape rest ++ jsonRun after) = jsonEscape (netlocOf rest) :=
        netlocOf_jsonEscape hends
      _ = netlocOf rest := jsonEscape_of_forall hhost
  rw [hform, splitObjectReference_url hp (isUrlChar_escaped hrest after), hnetloc, if_pos hok]

theorem IsJsonStable.reference_eq {T : Tables} (env : Env) {url after : Str}
    (hurl : urlAt (url ++ after) = some url) (h : IsJsonStable T url after) :
    splitObjectReference T env (jsonEscape url ++ jsonRun after) =
      splitObjectReference T env url := by
  obtain ⟨_, _, tail, _, _, _, htext, _, _, htail⟩ := urlAt_eq_some hurl
  obtain rfl : after = tail := List.append_cancel_left htext
  rcases h with ⟨hself, hnil⟩ | ⟨p, rest, hp, rfl, hok, hhost, hpath⟩
  · rw [hself, hnil, List.append_nil]
  · have hhead := head?_jsonRun htail
    have hends := hpath.exists_endsNetloc hhead
    obtain ⟨more, hmore, hkeeps, _⟩ := pathOf_jsonEscape hends hhead
    obtain ⟨hplain, rfl⟩ := hkeeps.mp hpath
    have hrest : ∀ c ∈ rest, isUrlChar c = true := fun c hc ↦
      forall_isUrlChar_of_urlAt hurl c (by simp [hc])
    have hkept : pathOf (jsonEscape rest ++ jsonRun after) = pathOf rest := by
      rw [hmore, List.append_nil, jsonEscape_of_forall hplain]
    calc
      splitObjectReference T env (jsonEscape (p ++ ':' :: '/' :: '/' :: rest) ++ jsonRun after) =
          referenceAt T env (netlocOf rest) (pathOf (jsonEscape rest ++ jsonRun after)) :=
        reference_jsonEscape env hp hrest hok hhost hends
      _ = referenceAt T env (netlocOf rest) (pathOf rest) := by rw [hkept]
      _ = splitObjectReference T env (p ++ ':' :: '/' :: '/' :: rest) := by
        rw [splitObjectReference_url hp hrest, if_pos hok]

theorem referenceAt_nil_key (T : Tables) (env : Env) (netloc : Str) :
    (referenceAt T env netloc []).key = [] := by
  unfold referenceAt
  cases hsplit : splitS3StyleUrl T env (lstripChar '/' (unquote [])) netloc with
  | none => rfl
  | some r =>
      have := splitS3StyleUrl_key_suffix hsplit
      simp [List.suffix_nil.mp this, lstripChar]

theorem isJsonStable_of_embeddedKey? {T : Tables} {env : Env} {buckets : Finset Str}
    {p rest after k : Str} (hp : IsHttpScheme p)
    (hurl : urlAt (p ++ ':' :: '/' :: '/' :: rest ++ after) =
      some (p ++ ':' :: '/' :: '/' :: rest))
    (hok : netlocOk T (netlocOf rest) = true) (hhost : ∀ c ∈ netlocOf rest, isEscaped c = false)
    (hbuckets : ∀ b ∈ buckets, ∀ c ∈ b, isEscaped c = false)
    (hkey : embeddedKey? T env buckets (p ++ ':' :: '/' :: '/' :: rest) = some k)
    (hkey' : embeddedKey? T env buckets
      (jsonEscape (p ++ ':' :: '/' :: '/' :: rest) ++ jsonRun after) = some k) :
    IsJsonStable T (p ++ ':' :: '/' :: '/' :: rest) after := by
  obtain ⟨_, _, tail, _, _, _, htext, _, _, htail⟩ := urlAt_eq_some hurl
  obtain rfl : after = tail := List.append_cancel_left htext
  have hrest : ∀ c ∈ rest, isUrlChar c = true := fun c hc ↦
    forall_isUrlChar_of_urlAt hurl c (by simp [hc])
  obtain ⟨hread, hk, hscope⟩ := embeddedKey?_eq_some_iff.mp hkey
  obtain ⟨hread', _, _⟩ := embeddedKey?_eq_some_iff.mp hkey'
  rw [splitObjectReference_url hp hrest, if_pos hok] at hread hscope
  have hends : ∃ c ∈ rest, endsNetloc c = true := by
    by_contra hno
    have hall : ∀ c ∈ rest, (!endsNetloc c) = true := fun c hc ↦ by
      simpa using fun hc' ↦ hno ⟨c, hc, hc'⟩
    have hpath : pathOf rest = [] := by
      rw [pathOf, rawPathOf_eq, List.dropWhile_eq_nil_iff.mpr hall]
      rfl
    rw [hpath, referenceAt_nil_key] at hread
    exact hk hread.symm
  obtain ⟨more, hmore, hkeeps, hheadMore⟩ := pathOf_jsonEscape (.inl hends) (head?_jsonRun htail)
  have hreads : splitObjectReference T env
      (jsonEscape (p ++ ':' :: '/' :: '/' :: rest) ++ jsonRun after) =
      referenceAt T env (netlocOf rest) (jsonEscape (pathOf rest) ++ more) := by
    calc
      _ = referenceAt T env (netlocOf rest) (pathOf (jsonEscape rest ++ jsonRun after)) :=
        reference_jsonEscape env hp hrest hok hhost (.inl hends)
      _ = referenceAt T env (netlocOf rest) (jsonEscape (pathOf rest) ++ more) := by rw [hmore]
  rw [hreads] at hread'
  refine .inr ⟨p, rest, hp, rfl, hok, hhost, hkeeps.mpr ?_⟩
  by_contra hchange
  obtain ⟨u, v, v', hu, hu', hlen, hv, hv'⟩ := unquote_diverges hheadMore hchange
  refine referenceAt_key_ne hu hu' hlen hv hv' (hread ▸ hk) (fun b hb ↦ ?_)
    (hread'.trans hread.symm)
  exact hbuckets b (hscope b hb)

/-! ## Whole texts -/

/-- No scheme stands between the last delimiter and the address. -/
def IsFirstInSegment (before text : Str) : Prop :=
  ∀ w z, before = w ++ z → z ≠ [] → (∀ c ∈ z, isDelimiter c = false) →
    afterScheme (z ++ text) = none

/-- Every address in scope comes first after its delimiter and is stable. -/
def IsJsonSafe (T : Tables) (env : Env) (buckets : Finset Str) (text : Str) : Prop :=
  ∀ before url after, text = before ++ (url ++ after) → urlAt (url ++ after) = some url →
    IsClean before (url ++ after) → embeddedKey? T env buckets url ≠ none →
    IsFirstInSegment before (url ++ after) ∧ IsJsonStable T url after

/-- The text has one scheme in it, which starts an address with a plain host. -/
def HasOneAddress (T : Tables) (text : Str) : Prop :=
  ∃ before p rest after, text = before ++ (p ++ ':' :: '/' :: '/' :: rest ++ after) ∧
    IsHttpScheme p ∧
    urlAt (p ++ ':' :: '/' :: '/' :: rest ++ after) = some (p ++ ':' :: '/' :: '/' :: rest) ∧
    netlocOk T (netlocOf rest) = true ∧ (∀ c ∈ netlocOf rest, isEscaped c = false) ∧
    ∀ w z, text = w ++ z → afterScheme z ≠ none → w = before

theorem isEscaped_of_forall₂_reEq {literal s : Str} (hlit : ∀ p ∈ literal, ∀ n < 128,
      isEscaped (Char.ofNat n) = true → reEq p (Char.ofNat n) = false)
    (hs : List.Forall₂ (fun p c ↦ reEq p c = true) literal s) :
    ∀ c ∈ s, isEscaped c = false := by
  induction hs with
  | nil => simp
  | @cons p c literal s hpc _ ih =>
      obtain ⟨hp, hrest⟩ := List.forall_mem_cons.mp hlit
      refine List.forall_mem_cons.mpr ⟨?_, ih hrest⟩
      by_contra hesc
      have hnot : reEq p c = false :=
        forall_escaped (P := fun c ↦ reEq p c = false) hp (by simpa using hesc)
      simp [hnot] at hpc

theorem IsUrlScheme.jsonEscape_eq {s : Str} (h : IsUrlScheme s) : jsonEscape s = s := by
  rcases h with h | h
  · exact jsonEscape_of_forall (isEscaped_of_forall₂_reEq (by decide) h)
  · exact jsonEscape_of_forall (isEscaped_of_forall₂_reEq (by decide) h)

theorem urlAt_jsonEscape {url after : Str} (h : urlAt (url ++ after) = some url) :
    urlAt (jsonEscape (url ++ after)) = some (jsonEscape url ++ jsonRun after) := by
  obtain ⟨s, body, tail, hs, hscheme, rfl, htext, hne, hbody, _⟩ := urlAt_eq_some h
  obtain rfl : after = tail := List.append_cancel_left htext
  have hafter := afterScheme_jsonEscape (s ++ body ++ after)
  have hform : jsonEscape (s ++ body ++ after) = s ++ jsonEscape (body ++ after) := by
    rw [List.append_assoc, jsonEscape_append, hs.jsonEscape_eq]
  rw [hscheme, Option.map_some, hform] at hafter
  have hrun : (jsonEscape (body ++ after)).takeWhile isUrlChar =
      jsonEscape body ++ jsonRun after := by
    rw [takeWhile_isUrlChar_jsonEscape,
      jsonRun_append fun c hc ↦ isDelimiter_of_isUrlChar (hbody c hc)]
  have hnonempty : jsonEscape body ++ jsonRun after ≠ [] := by
    have hle := length_le_jsonEscape body
    have hpos := List.length_pos_of_ne_nil hne
    apply List.ne_nil_of_length_pos
    rw [List.length_append]
    omega
  calc
    urlAt (jsonEscape (s ++ body ++ after)) = some (s ++ (jsonEscape body ++ jsonRun after)) := by
      rw [hform, urlAt_append_scheme hafter, hrun, if_neg hnonempty]
    _ = some (jsonEscape (s ++ body) ++ jsonRun after) := by
      rw [jsonEscape_append, hs.jsonEscape_eq, List.append_assoc]

/-- The address that comes first after its delimiter is found in the escaped text. -/
theorem mem_embeddedUrls_jsonEscape {before url after : Str}
    (hurl : urlAt (url ++ after) = some url) (hfirst : IsFirstInSegment before (url ++ after)) :
    jsonEscape url ++ jsonRun after ∈ embeddedUrls (jsonEscape (before ++ (url ++ after))) := by
  have hat := urlAt_jsonEscape hurl
  have hsplit := List.takeWhile_append_dropWhile (p := isUrlChar) (l := jsonEscape after)
  rw [takeWhile_isUrlChar_jsonEscape] at hsplit
  have hform : jsonEscape (url ++ after) = (jsonEscape url ++ jsonRun after) ++
      (jsonEscape after).dropWhile isUrlChar := by
    rw [List.append_assoc, hsplit, jsonEscape_append]
  refine mem_embeddedUrls_iff.mpr ⟨jsonEscape before, (jsonEscape after).dropWhile isUrlChar, ?_,
    by rw [← hform, hat], ?_⟩
  · rw [jsonEscape_append, hform]
  · rw [← hform]
    intro w z hwz hz hchars
    by_contra hsome
    have hscheme : afterScheme (z ++ jsonEscape (url ++ after)) ≠ none :=
      fun hnone ↦ hsome (urlAt_eq_none_of_afterScheme hnone)
    have htext : jsonEscape (before ++ (url ++ after)) = w ++ (z ++ jsonEscape (url ++ after)) := by
      rw [jsonEscape_append, hwz, List.append_assoc]
    obtain ⟨t₁, t₂, ht, rfl, ht₂⟩ := exists_of_afterScheme_jsonEscape htext hscheme
    rcases List.append_eq_append_iff.mp ht with ⟨m, rfl, _⟩ | ⟨m, rfl, rfl⟩
    · -- the scheme would start behind the text before the address
      rw [jsonEscape_append, List.append_assoc] at hwz
      have := congrArg List.length hwz
      have hpos := List.length_pos_of_ne_nil hz
      simp only [List.length_append] at this
      omega
    · have hzm : z = jsonEscape m := by
        rw [jsonEscape_append] at hwz
        exact (List.append_cancel_left hwz).symm
      subst hzm
      have hm : m ≠ [] := by
        rintro rfl
        exact hz rfl
      have hdelim : ∀ c ∈ m, isDelimiter c = false := by
        intro c hc
        by_contra hd
        obtain ⟨hstop, hkeep⟩ := jsonEscapeChar_delimiter (by simpa using hd)
        have hmem : c ∈ jsonEscape m := List.mem_flatMap.mpr ⟨c, hc, by rw [hkeep]; simp⟩
        simp [hchars c hmem] at hstop
      have hnone := hfirst t₁ m rfl hm hdelim
      rw [← jsonEscape_append, afterScheme_jsonEscape, hnone] at hscheme
      exact hscheme rfl

theorem extract_subset_of_isJsonSafe {T : Tables} {env : Env} {buckets : Finset Str} {text : Str}
    (h : IsJsonSafe T env buckets text) :
    extractEmbeddedKeys T env text buckets ⊆
      extractEmbeddedKeys T env (jsonEscape text) buckets := by
  intro k hk
  obtain ⟨url, hmem, hkey⟩ := mem_extractEmbeddedKeys.mp hk
  obtain ⟨before, after, rfl, hurl, hclean⟩ := mem_embeddedUrls_iff.mp hmem
  obtain ⟨hfirst, hstable⟩ := h before url after rfl hurl hclean (by simp [hkey])
  refine mem_extractEmbeddedKeys.mpr ⟨_, mem_embeddedUrls_jsonEscape hurl hfirst, ?_⟩
  have href := hstable.reference_eq env hurl
  rw [embeddedKey?_eq_some_iff] at hkey ⊢
  rw [href]
  exact hkey

theorem isJsonSafe_of_extract_subset {T : Tables} {env : Env} {buckets : Finset Str} {text : Str}
    (hbuckets : ∀ b ∈ buckets, IsBucketName b) (hone : HasOneAddress T text)
    (h : extractEmbeddedKeys T env text buckets ⊆
      extractEmbeddedKeys T env (jsonEscape text) buckets) :
    IsJsonSafe T env buckets text := by
  obtain ⟨before, p, rest, after, rfl, hp, hurl, hok, hhost, hsingle⟩ := hone
  have hscheme : ∀ {x y u : Str}, urlAt (x ++ y) = some u → afterScheme (x ++ y) ≠ none := by
    intro x y u hu hnone
    rw [urlAt_eq_none_of_afterScheme hnone] at hu
    exact absurd hu (by simp)
  intro before' url' after' htext hurl' hclean hkey
  obtain rfl := hsingle before' (url' ++ after') htext (hscheme hurl')
  have hrest := List.append_cancel_left htext
  rw [← hrest, hurl] at hurl'
  obtain rfl := Option.some.inj hurl'
  obtain rfl := List.append_cancel_left hrest
  refine ⟨fun w z hwz hz _ ↦ ?_, ?_⟩
  · by_contra hsome
    have := hsingle w (z ++ (p ++ ':' :: '/' :: '/' :: rest ++ after))
      (by rw [hwz, List.append_assoc]) hsome
    rw [hwz] at this
    exact hz (List.self_eq_append_right.mp this)
  · obtain ⟨k, hk⟩ := Option.ne_none_iff_exists'.mp hkey
    have hmem : k ∈ extractEmbeddedKeys T env
        (before' ++ (p ++ ':' :: '/' :: '/' :: rest ++ after)) buckets :=
      mem_extractEmbeddedKeys.mpr ⟨_, mem_embeddedUrls_iff.mpr ⟨_, _, rfl, hurl, hclean⟩, hk⟩
    obtain ⟨v, hv, hvk⟩ := mem_extractEmbeddedKeys.mp (h hmem)
    obtain ⟨x, a, hx, hva, _⟩ := mem_embeddedUrls_iff.mp hv
    obtain ⟨t₁, t₂, ht, rfl, ht₂⟩ := exists_of_afterScheme_jsonEscape hx (hscheme hva)
    have hne : afterScheme t₂ ≠ none := by
      intro hnone
      have := afterScheme_jsonEscape t₂
      rw [← ht₂, hnone] at this
      exact hscheme hva this
    obtain rfl := hsingle t₁ t₂ ht hne
    obtain rfl := List.append_cancel_left ht
    rw [ht₂, urlAt_jsonEscape hurl] at hva
    obtain rfl := Option.some.inj hva
    refine isJsonStable_of_embeddedKey? hp hurl hok hhost (fun b hb c hc ↦ ?_) hk hvk
    by_contra hesc
    have hno : isHostChar c = false :=
      forall_escaped (P := fun c ↦ isHostChar c = false) (by decide) (by simpa using hesc)
    simp [(hbuckets b hb).isHostChar c hc] at hno

/-- Escaping keeps every key of a text all of whose addresses are stable, and
among the texts with one address it keeps the key of no other. -/
theorem json_escape_keeps_keys (T : Tables) (env : Env) (buckets : Finset Str) (text : Str) :
    (IsJsonSafe T env buckets text →
      extractEmbeddedKeys T env text buckets ⊆
        extractEmbeddedKeys T env (jsonEscape text) buckets) ∧
    ((∀ b ∈ buckets, IsBucketName b) → HasOneAddress T text →
      (extractEmbeddedKeys T env text buckets ⊆
        extractEmbeddedKeys T env (jsonEscape text) buckets ↔
          IsJsonSafe T env buckets text)) :=
  ⟨extract_subset_of_isJsonSafe, fun hbuckets hone ↦
    ⟨isJsonSafe_of_extract_subset hbuckets hone, extract_subset_of_isJsonSafe⟩⟩

/-- An image whose source stands between single quotation marks. -/
def photoTag : Str := "<img src='https://sgp1.digitaloceanspaces.com/scola/photo.png'>".toList

theorem hasOneAddress_photoTag : HasOneAddress Tables.ascii photoTag := by
  refine ⟨"<img src='".toList, "https".toList,
    "sgp1.digitaloceanspaces.com/scola/photo.png".toList, "'>".toList, by decide,
    .inr (by decide), by decide, by decide, by decide, ?_⟩
  intro w z hwz hscheme
  have hall : ∀ n < 64, afterScheme (photoTag.drop n) ≠ none →
      photoTag.take n = "<img src='".toList := by decide
  have hlt : w.length < 64 := by
    have hlen := congrArg List.length hwz
    have hphoto : photoTag.length = 63 := by decide
    rw [hphoto, List.length_append] at hlen
    omega
  have hn := hall w.length hlt
  rw [hwz, List.drop_left' rfl, List.take_left' rfl] at hn
  exact hn hscheme

theorem json_escape_keeps_keys_photoTag :
    (∀ b ∈ ({"scola".toList} : Finset Str), IsBucketName b) ∧
      IsJsonSafe Tables.ascii sgp1Env {"scola".toList} photoTag ∧
      "photo.png".toList ∈ extractEmbeddedKeys Tables.ascii sgp1Env (jsonEscape photoTag)
        {"scola".toList} := by
  have hbuckets : ∀ b ∈ ({"scola".toList} : Finset Str), IsBucketName b := by
    intro b hb
    rw [Finset.mem_singleton.mp hb]
    exact isBucketName_scola
  have hsubset : extractEmbeddedKeys Tables.ascii sgp1Env photoTag {"scola".toList} ⊆
      extractEmbeddedKeys Tables.ascii sgp1Env (jsonEscape photoTag) {"scola".toList} := by
    decide
  have hsafe := ((json_escape_keeps_keys Tables.ascii sgp1Env {"scola".toList} photoTag).2
    hbuckets hasOneAddress_photoTag).mp hsubset
  have hkept := (json_escape_keeps_keys Tables.ascii sgp1Env {"scola".toList} photoTag).1 hsafe
  exact ⟨hbuckets, hsafe, hkept (by decide)⟩

/-- Between double quotation marks the key gains a backslash. -/
theorem json_escape_quotation_lost :
    ¬∀ (T : Tables) (env : Env) (text : Str) (buckets : Finset Str),
      extractEmbeddedKeys T env text buckets ⊆
        extractEmbeddedKeys T env (jsonEscape text) buckets := by
  intro h
  have hlost := h Tables.ascii sgp1Env
    "<img src=\"https://sgp1.digitaloceanspaces.com/scola/photo.png\">".toList {"scola".toList}
  exact absurd hlost (by decide)

end StorageReconciler
