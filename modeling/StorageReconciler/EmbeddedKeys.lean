import StorageReconciler.ObjectAddress
import Mathlib.Data.Finset.Lattice.Lemmas
import Mathlib.Data.Finset.Dedup

/-!
# Keys embedded in rich text

The scanner finds every web address inside a text, and each address names a
key unless it points at a bucket out of scope.  A character that no address
may contain cuts the scan in two.
-/

namespace StorageReconciler

open Strings Patterns UrlSplit PercentCoding

def isUrlChar (c : Char) : Bool :=
  !(isSpace c || c == '"' || c == '\'' || c == '<' || c == '>' || c == ')')

/-- `https?://` at the head of the text, and what follows it. -/
def afterScheme (text : Str) : Option Str :=
  (matchLiteral "https://".toList text).or (matchLiteral "http://".toList text)

/-- `https?://[^\s"'<>)]+` at the head of the text. -/
def urlAt (text : Str) : Option Str :=
  match afterScheme text with
  | none => none
  | some rest =>
      if rest.takeWhile isUrlChar = [] then none
      else some (text.take (text.length - (rest.dropWhile isUrlChar).length))

/-- The matches from left to right; `skip` characters belong to the last one. -/
def embeddedUrlsFrom : ℕ → Str → List Str
  | _, [] => []
  | skip + 1, _ :: text => embeddedUrlsFrom skip text
  | 0, c :: text =>
      match urlAt (c :: text) with
      | some url => url :: embeddedUrlsFrom (url.length - 1) text
      | none => embeddedUrlsFrom 0 text

def embeddedUrls (text : Str) : List Str := embeddedUrlsFrom 0 text

/-- The key an embedded address contributes, if it is in scope. -/
def embeddedKey? (T : Tables) (env : Env) (buckets : Finset Str) (url : Str) : Option Str :=
  let r := splitObjectReference T env url
  if r.key = [] then none
  else
    match r.bucket with
    | some urlBucket => if urlBucket ∈ buckets then some r.key else none
    | none => some r.key

def extractEmbeddedKeys (T : Tables) (env : Env) (text : Str) (buckets : Finset Str) :
    Finset Str :=
  ((embeddedUrls text).filterMap (embeddedKey? T env buckets)).toFinset

theorem mem_extractEmbeddedKeys {T : Tables} {env : Env} {text : Str} {buckets : Finset Str}
    {k : Str} :
    k ∈ extractEmbeddedKeys T env text buckets ↔
      ∃ url ∈ embeddedUrls text, embeddedKey? T env buckets url = some k := by
  simp [extractEmbeddedKeys]

theorem embeddedKey?_eq_some_iff {T : Tables} {env : Env} {buckets : Finset Str} {url k : Str} :
    embeddedKey? T env buckets url = some k ↔
      (splitObjectReference T env url).key = k ∧ k ≠ [] ∧
        ∀ b, (splitObjectReference T env url).bucket = some b → b ∈ buckets := by
  unfold embeddedKey?
  obtain ⟨bucket, key, hint⟩ := splitObjectReference T env url
  simp only
  by_cases hkey : key = []
  · rw [if_pos hkey]
    simp only [reduceCtorEq, false_iff, not_and]
    rintro rfl hk
    exact absurd hkey hk
  · rw [if_neg hkey]
    cases bucket with
    | none =>
        simp only [Option.some.injEq, reduceCtorEq, false_imp_iff, implies_true, and_true]
        exact ⟨fun h ↦ ⟨h, h ▸ hkey⟩, And.left⟩
    | some b =>
        by_cases hmem : b ∈ buckets
        · simp only [if_true, Option.some.injEq, forall_eq', hmem, and_true]
          exact ⟨fun h ↦ ⟨h, h ▸ hkey⟩, And.left⟩
        · simp [hmem]

/-! ## The scanner -/

theorem isUrlChar_of_isAlphanum {c : Char} (hc : c.isAlphanum = true) : isUrlChar c = true := by
  have hlo := toNat_of_isAlphanum hc
  have hhi : c.toNat < 128 := by simpa [isAscii] using isAscii_of_isAlphanum hc
  have hspace : isSpace c = false := by
    simp only [isSpace, Bool.or_eq_false_iff, Bool.and_eq_false_iff, decide_eq_false_iff_not,
      beq_eq_false_iff_ne]
    omega
  simp only [isUrlChar, hspace, Bool.false_or, Bool.not_eq_true', Bool.or_eq_false_iff,
    beq_eq_false_iff_ne]
  refine ⟨⟨⟨⟨?_, ?_⟩, ?_⟩, ?_⟩, ?_⟩ <;> rintro rfl <;> exact absurd hc (by decide)

theorem isUrlChar_of_toLower {c : Char} (h : isUrlChar c.toLower = true) :
    isUrlChar c = true := by
  by_cases hup : c.isUpper = true
  · exact isUrlChar_of_isAlphanum (isAlpha_isAlphanum (isAlpha_of_isUpper hup))
  · rwa [toLower_of_not_isUpper hup] at h

theorem isUrlChar_of_reEq {p c : Char} (hp : isUrlChar p = true) (h : reEq p c = true) :
    isUrlChar c = true := by
  rcases reEq_cases h with h | ⟨_, h⟩
  · exact isUrlChar_of_toLower (h ▸ hp)
  · have hall : ∀ n ∈ caseFolds.map Prod.snd, isUrlChar (Char.ofNat n) = true := by decide
    simpa using hall _ (List.mem_map_of_mem h)

theorem matchLiteral_append {literal : Str} (hlit : ∀ p ∈ literal, isUrlChar p = true) {c : Char}
    (hc : isUrlChar c = false) (x y : Str) :
    matchLiteral literal (x ++ c :: y) = (matchLiteral literal x).map (· ++ c :: y) := by
  induction literal generalizing x with
  | nil => rfl
  | cons p literal ih =>
      cases x with
      | nil =>
          have hpc : reEq p c = false := by
            by_contra h
            have := isUrlChar_of_reEq (hlit p (by simp)) (by simpa using h)
            simp [this] at hc
          simp [matchLiteral, hpc]
      | cons a x =>
          have htail := ih (fun q hq ↦ hlit q (List.mem_cons_of_mem p hq)) x
          by_cases hpa : reEq p a = true <;> simp [matchLiteral, hpa, htail]

/-- The text of `https?://`, letter case ignored. -/
def IsUrlScheme (s : Str) : Prop :=
  List.Forall₂ (fun p c ↦ reEq p c = true) "https://".toList s ∨
    List.Forall₂ (fun p c ↦ reEq p c = true) "http://".toList s

theorem isUrlChar_of_forall₂ {literal s : Str} (hlit : ∀ p ∈ literal, isUrlChar p = true)
    (h : List.Forall₂ (fun p c ↦ reEq p c = true) literal s) :
    ∀ c ∈ s, isUrlChar c = true := by
  induction h with
  | nil => simp
  | cons hpc _ ih =>
      obtain ⟨hp, hrest⟩ := List.forall_mem_cons.mp hlit
      exact List.forall_mem_cons.mpr ⟨isUrlChar_of_reEq hp hpc, ih hrest⟩

theorem IsUrlScheme.isUrlChar {s : Str} (h : IsUrlScheme s) : ∀ c ∈ s, isUrlChar c = true := by
  rcases h with h | h
  · exact isUrlChar_of_forall₂ (by decide) h
  · exact isUrlChar_of_forall₂ (by decide) h

theorem afterScheme_eq_some {text rest : Str} (h : afterScheme text = some rest) :
    ∃ s, text = s ++ rest ∧ IsUrlScheme s := by
  rcases Option.or_eq_some_iff.mp h with h | ⟨_, h⟩
  · obtain ⟨s, hs, hscheme⟩ := matchLiteral_eq_some h
    exact ⟨s, hs, .inl hscheme⟩
  · obtain ⟨s, hs, hscheme⟩ := matchLiteral_eq_some h
    exact ⟨s, hs, .inr hscheme⟩

theorem afterScheme_append {c : Char} (hc : isUrlChar c = false) (x y : Str) :
    afterScheme (x ++ c :: y) = (afterScheme x).map (· ++ c :: y) := by
  rw [afterScheme, afterScheme, matchLiteral_append (by decide) hc,
    matchLiteral_append (by decide) hc]
  cases matchLiteral "https://".toList x <;> rfl

theorem takeWhile_append_stop {α : Type*} {p : α → Bool} {c : α} (hc : p c = false)
    (x y : List α) : (x ++ c :: y).takeWhile p = x.takeWhile p := by
  induction x with
  | nil => simp [hc]
  | cons a x ih => by_cases ha : p a = true <;> simp [ha, ih]

theorem dropWhile_append_stop {α : Type*} {p : α → Bool} {c : α} (hc : p c = false)
    (x y : List α) : (x ++ c :: y).dropWhile p = x.dropWhile p ++ c :: y := by
  induction x with
  | nil => simp [hc]
  | cons a x ih => by_cases ha : p a = true <;> simp [ha, ih]

theorem urlAt_append {c : Char} (hc : isUrlChar c = false) (x y : Str) :
    urlAt (x ++ c :: y) = urlAt x := by
  unfold urlAt
  rw [afterScheme_append hc]
  cases hx : afterScheme x with
  | none => rfl
  | some rest =>
      obtain ⟨s, rfl, _⟩ := afterScheme_eq_some hx
      have hle := List.length_dropWhile_le isUrlChar rest
      simp only [Option.map_some, takeWhile_append_stop hc, dropWhile_append_stop hc]
      congr 2
      have hlen : (s ++ rest ++ c :: y).length - (rest.dropWhile isUrlChar ++ c :: y).length =
          (s ++ rest).length - (rest.dropWhile isUrlChar).length := by
        simp only [List.length_append]
        omega
      have hle' : (s ++ rest).length - (rest.dropWhile isUrlChar).length ≤
          (s ++ rest).length := Nat.sub_le _ _
      rw [hlen, List.take_append_of_le_length hle']

theorem urlAt_eq_none_of_afterScheme {text : Str} (h : afterScheme text = none) :
    urlAt text = none := by
  unfold urlAt
  rw [h]

theorem urlAt_append_scheme {s rest : Str} (h : afterScheme (s ++ rest) = some rest) :
    urlAt (s ++ rest) = if rest.takeWhile isUrlChar = [] then none
      else some (s ++ rest.takeWhile isUrlChar) := by
  have hsplit := List.takeWhile_append_dropWhile (p := isUrlChar) (l := rest)
  have hlen : (s ++ rest).length - (rest.dropWhile isUrlChar).length =
      (s ++ rest.takeWhile isUrlChar).length := by
    have := congrArg List.length hsplit
    simp only [List.length_append] at this ⊢
    omega
  have htake : (s ++ rest).take (s ++ rest.takeWhile isUrlChar).length =
      s ++ rest.takeWhile isUrlChar := by
    have hform : s ++ rest = (s ++ rest.takeWhile isUrlChar) ++ rest.dropWhile isUrlChar := by
      rw [List.append_assoc, hsplit]
    rw [hform, List.take_left' rfl]
  unfold urlAt
  rw [h]
  simp only [hlen, htake]

theorem urlAt_eq_some {text url : Str} (h : urlAt text = some url) :
    ∃ s body tail, IsUrlScheme s ∧ afterScheme text = some (body ++ tail) ∧ url = s ++ body ∧
      text = url ++ tail ∧ body ≠ [] ∧ (∀ c ∈ body, isUrlChar c = true) ∧
      ∀ c, tail.head? = some c → isUrlChar c = false := by
  cases hrest : afterScheme text with
  | none => simp [urlAt, hrest] at h
  | some rest =>
      obtain ⟨s, rfl, hs⟩ := afterScheme_eq_some hrest
      have hsplit := List.takeWhile_append_dropWhile (p := isUrlChar) (l := rest)
      rw [urlAt_append_scheme hrest] at h
      split_ifs at h with hbody
      have hurl := (Option.some.inj h).symm
      refine ⟨s, rest.takeWhile isUrlChar, rest.dropWhile isUrlChar, hs, by rw [hsplit], hurl,
        ?_, hbody, fun c hc ↦ List.mem_takeWhile_imp hc, fun c hc ↦ ?_⟩
      · rw [hurl, List.append_assoc, hsplit]
      · have := List.head?_dropWhile_not isUrlChar rest
        rw [hc] at this
        simpa using this

theorem forall_isUrlChar_of_urlAt {text url : Str} (h : urlAt text = some url) :
    ∀ c ∈ url, isUrlChar c = true := by
  obtain ⟨s, body, _, hs, _, rfl, _, _, hbody, _⟩ := urlAt_eq_some h
  intro c hc
  rcases List.mem_append.mp hc with hc | hc
  · exact hs.isUrlChar c hc
  · exact hbody c hc

theorem urlAt_length_pos {text url : Str} (h : urlAt text = some url) : 0 < url.length := by
  obtain ⟨s, body, tail, _, _, rfl, _, hbody, _⟩ := urlAt_eq_some h
  have := List.length_pos_of_ne_nil hbody
  simp only [List.length_append]
  omega

theorem embeddedUrlsFrom_append {c : Char} (hc : isUrlChar c = false) {skip : ℕ} {x : Str}
    (hskip : skip ≤ x.length) (y : Str) :
    embeddedUrlsFrom skip (x ++ c :: y) = embeddedUrlsFrom skip x ++ embeddedUrls y := by
  induction x generalizing skip with
  | nil =>
      obtain rfl : skip = 0 := by simpa using hskip
      have hnone : urlAt (c :: y) = none := urlAt_append hc [] y
      simp [embeddedUrlsFrom, hnone, embeddedUrls]
  | cons a x ih =>
      cases skip with
      | succ skip => exact ih (by simpa using hskip)
      | zero =>
          have hcons : urlAt (a :: (x ++ c :: y)) = urlAt (a :: x) := urlAt_append hc (a :: x) y
          simp only [List.cons_append, embeddedUrlsFrom, hcons]
          cases hurl : urlAt (a :: x) with
          | none => exact ih (by simp)
          | some url =>
              obtain ⟨_, _, tail, _, _, _, htext, _⟩ := urlAt_eq_some hurl
              have hlen := congrArg List.length htext
              simp only [List.length_cons, List.length_append] at hlen
              have hle : url.length - 1 ≤ x.length := by omega
              simp [ih hle]

/-- No match reaches across a character that addresses do not contain. -/
theorem embeddedUrls_append {c : Char} (hc : isUrlChar c = false) (x y : Str) :
    embeddedUrls (x ++ c :: y) = embeddedUrls x ++ embeddedUrls y :=
  embeddedUrlsFrom_append hc (Nat.zero_le _) y

theorem extractEmbeddedKeys_append {T : Tables} {env : Env} {buckets : Finset Str} {c : Char}
    (hc : isUrlChar c = false) (x y : Str) :
    extractEmbeddedKeys T env (x ++ c :: y) buckets =
      extractEmbeddedKeys T env x buckets ∪ extractEmbeddedKeys T env y buckets := by
  ext k
  simp only [mem_extractEmbeddedKeys, embeddedUrls_append hc, List.mem_append, Finset.mem_union,
    or_and_right, exists_or]

theorem embeddedUrlsFrom_length (x : Str) {skip : ℕ} (hskip : x.length ≤ skip) :
    embeddedUrlsFrom skip x = [] := by
  induction x generalizing skip with
  | nil => cases skip <;> rfl
  | cons a x ih =>
      cases skip with
      | zero => simp at hskip
      | succ skip => exact ih (by simpa using hskip)

/-- No address starts in the run of address characters that ends `before`. -/
def IsClean (before text : Str) : Prop :=
  ∀ w z, before = w ++ z → z ≠ [] → (∀ c ∈ z, isUrlChar c = true) → urlAt (z ++ text) = none

theorem IsClean.concat {before text : Str} {c : Char}
    (h : isUrlChar c = true → IsClean before (c :: text)) (hnone : urlAt (c :: text) = none) :
    IsClean (before ++ [c]) text := by
  intro w z hwz hz hurl
  rcases List.eq_nil_or_concat z with rfl | ⟨z', d, rfl⟩
  · exact absurd rfl hz
  · rw [List.concat_eq_append] at hwz hurl ⊢
    rw [← List.append_assoc] at hwz
    obtain ⟨hbefore, hcd⟩ := List.append_inj' hwz rfl
    obtain rfl : c = d := by simpa using hcd
    cases z' with
    | nil => exact hnone
    | cons a z' =>
        have hc := hurl c (by simp)
        have hrest := h hc w (a :: z') hbefore (by simp)
          fun b hb ↦ hurl b (List.mem_append_left _ hb)
        simpa using hrest

theorem urlAt_isUrlChar {c : Char} {text url : Str} (h : urlAt (c :: text) = some url) :
    isUrlChar c = true := by
  by_contra hc
  have hnone : urlAt (c :: text) = none := urlAt_append (by simpa using hc) [] text
  simp [hnone] at h

theorem exists_isClean_of_mem {skip : ℕ} {text url : Str} (before : Str)
    (hzero : skip = 0 → ∀ c, text.head? = some c → isUrlChar c = true → IsClean before text)
    (hpos : 0 < skip → ∃ a b, text = a ++ b ∧ a.length = skip ∧
      ∀ c, b.head? = some c → isUrlChar c = false)
    (h : url ∈ embeddedUrlsFrom skip text) :
    ∃ x after, before ++ text = x ++ (url ++ after) ∧ urlAt (url ++ after) = some url ∧
      IsClean x (url ++ after) := by
  induction text generalizing skip before with
  | nil => cases skip <;> simp [embeddedUrlsFrom] at h
  | cons c text ih =>
      have hmove : before ++ c :: text = (before ++ [c]) ++ text := by simp
      cases skip with
      | succ skip =>
          obtain ⟨a, b, hab, hlen, hstop⟩ := hpos (Nat.succ_pos skip)
          cases a with
          | nil => simp at hlen
          | cons a₀ a =>
              obtain ⟨rfl, rfl⟩ := List.cons.inj hab
              have hlen' : a.length = skip := by simpa using hlen
              rw [hmove]
              refine ih _ (fun hz d hd hurl ↦ ?_) (fun _ ↦ ⟨a, b, rfl, hlen', hstop⟩) h
              have ha : a = [] := List.length_eq_zero_iff.mp (hlen'.trans hz)
              subst ha
              exact absurd (hstop d hd) (by simp [hurl])
      | zero =>
          have hclean : isUrlChar c = true → IsClean before (c :: text) := hzero rfl c rfl
          simp only [embeddedUrlsFrom] at h
          cases hurl : urlAt (c :: text) with
          | none =>
              rw [hurl] at h
              rw [hmove]
              exact ih _ (fun _ d _ _ ↦ IsClean.concat hclean hurl) (by simp) h
          | some first =>
              rw [hurl] at h
              obtain ⟨_, _, tail, _, _, _, htext, _, _, htail⟩ := urlAt_eq_some hurl
              rcases List.mem_cons.mp h with rfl | h
              · refine ⟨before, tail, by rw [htext], by rw [← htext, hurl], ?_⟩
                rw [← htext]
                exact hclean (urlAt_isUrlChar hurl)
              · have hlen := urlAt_length_pos hurl
                obtain ⟨d, first', rfl⟩ := List.exists_cons_of_ne_nil
                  (List.ne_nil_of_length_pos hlen)
                obtain ⟨rfl, rfl⟩ := List.cons.inj htext
                rw [hmove]
                refine ih _ (fun hz e he hurl' ↦ ?_)
                  (fun _ ↦ ⟨first', tail, rfl, by simp, htail⟩) h
                have hnil : first' = [] := by simpa using hz
                subst hnil
                exact absurd (htail e he) (by simp [hurl'])

theorem embeddedUrls_append_of_none {z y : Str}
    (h : ∀ w z', z = w ++ z' → z' ≠ [] → urlAt (z' ++ y) = none) :
    embeddedUrls (z ++ y) = embeddedUrls y := by
  induction z with
  | nil => rfl
  | cons c z ih =>
      have hnone := h [] (c :: z) rfl (by simp)
      rw [List.cons_append] at hnone
      have htail : ∀ w z', z = w ++ z' → z' ≠ [] → urlAt (z' ++ y) = none :=
        fun w z' hz ↦ h (c :: w) z' (by simp [hz])
      rw [← ih htail]
      simp [embeddedUrls, embeddedUrlsFrom, hnone]

/-- The scanner finds the first address of every run of address characters. -/
theorem mem_embeddedUrls_iff {text url : Str} :
    url ∈ embeddedUrls text ↔ ∃ before after, text = before ++ (url ++ after) ∧
      urlAt (url ++ after) = some url ∧ IsClean before (url ++ after) := by
  constructor
  · intro h
    have hclean : IsClean [] text := by
      intro w z hwz hz
      have : z = [] := (List.append_eq_nil_iff.mp hwz.symm).2
      exact absurd this hz
    exact exists_isClean_of_mem [] (fun _ _ _ _ ↦ hclean) (by simp) h
  · rintro ⟨before, after, rfl, hurl, hclean⟩
    have hsplit := List.rdropWhile_append_rtakeWhile (p := isUrlChar) (l := before)
    set w := before.rdropWhile isUrlChar with hw
    set z := before.rtakeWhile isUrlChar with hz
    have hurlz : ∀ c ∈ z, isUrlChar c = true := fun c hc ↦ List.mem_rtakeWhile_imp hc
    have hstart : embeddedUrls (z ++ (url ++ after)) = embeddedUrls (url ++ after) := by
      apply embeddedUrls_append_of_none
      intro w' z' hz' hne
      apply hclean (w ++ w') z' (by rw [← hsplit, hz', List.append_assoc]) hne
      intro c hc
      exact hurlz c (by rw [hz']; exact List.mem_append_right _ hc)
    have hmem : url ∈ embeddedUrls (z ++ (url ++ after)) := by
      rw [hstart]
      obtain ⟨c, url', rfl⟩ := List.exists_cons_of_ne_nil
        (List.ne_nil_of_length_pos (urlAt_length_pos hurl))
      rw [List.cons_append] at hurl
      simp [embeddedUrls, embeddedUrlsFrom, hurl]
    rw [← hsplit, List.append_assoc]
    by_cases hnil : w = []
    · rw [hnil]
      exact hmem
    · have hstop : isUrlChar (w.getLast hnil) = false := by
        simpa using List.rdropWhile_last_not isUrlChar before hnil
      rw [← List.dropLast_append_getLast hnil, List.append_assoc, List.singleton_append,
        embeddedUrls_append hstop]
      exact List.mem_append_right _ hmem

end StorageReconciler
