import StorageReconciler.Foundations.Strings

/-!
# Splitting a URL into its components

`urlsplit` and `urlparse` of the standard library, as they behave on a string.
A result of `none` stands for the `ValueError` raised on a malformed network
location.  For an `http` or `https` URL without stray control characters the
outcome is given by three cuts of the text after the scheme
(`urlparse_http`), which is all that callers need.
-/

namespace StorageReconciler.UrlSplit

open Strings

structure ParseResult where
  scheme : Str
  netloc : Str
  path : Str
  params : Str
  query : Str
  fragment : Str
  deriving DecidableEq

def isSchemeChar (c : Char) : Bool := c.isAlphanum || c == '+' || c == '-' || c == '.'

def splitScheme (url : Str) : Str × Str :=
  let scheme := url.takeWhile (· != ':')
  if url.contains ':' && (scheme.head?.any Char.isAlpha && scheme.all isSchemeChar) then
    (scheme.map Char.toLower, (url.dropWhile (· != ':')).tail)
  else ([], url)

def endsNetloc (c : Char) : Bool := c == '/' || c == '?' || c == '#'

def splitNetloc : Str → Str × Str
  | '/' :: '/' :: rest => (rest.takeWhile (!endsNetloc ·), rest.dropWhile (!endsNetloc ·))
  | url => ([], url)

def bracketsOk (T : Tables) (netloc : Str) : Bool :=
  if netloc.contains '[' && netloc.contains ']' then
    T.bracketedHostOk (partition ']' (partition '[' netloc).2).1
  else netloc.contains '[' == netloc.contains ']'

/-- A host outside ASCII may not turn into one with URL syntax in it. -/
def normalizedOk (T : Tables) (netloc : Str) : Bool :=
  let n := netloc.filter fun c ↦ !(c == '@' || c == ':' || c == '#' || c == '?')
  netloc.all isAscii || n == T.nfkc n ||
    !(T.nfkc n).any fun c ↦ endsNetloc c || c == '@' || c == ':'

def netlocOk (T : Tables) (netloc : Str) : Bool := bracketsOk T netloc && normalizedOk T netloc

/-- Parameters are split off the last segment only. -/
def splitParams (path : Str) : Str × Str :=
  let dir := path.rdropWhile (· != '/')
  let last := path.rtakeWhile (· != '/')
  if last.contains ';' then (dir ++ (partition ';' last).1, (partition ';' last).2)
  else (path, [])

def usesParams : List Str :=
  ["", "ftp", "hdl", "prospero", "http", "imap", "https", "shttp", "rtsp", "rtsps", "rtspu",
    "sip", "sips", "mms", "sftp", "tel"].map String.toList

def isControlOrSpace (c : Char) : Bool := c.toNat ≤ 0x20

def isUnsafe (c : Char) : Bool := c == '\t' || c == '\r' || c == '\n'

def urlparse (T : Tables) (url : Str) : Option ParseResult :=
  let url := (url.dropWhile isControlOrSpace).filter (!isUnsafe ·)
  let (scheme, url) := splitScheme url
  let (netloc, url) := splitNetloc url
  let (url, fragment) := partition '#' url
  let (url, query) := partition '?' url
  let (path, params) := if usesParams.contains scheme then splitParams url else (url, [])
  if netlocOk T netloc then some ⟨scheme, netloc, path, params, query, fragment⟩ else none

/-! ## The cuts of a web address -/

/-- The network location, given the text after `//`. -/
def netlocOf (rest : Str) : Str := rest.takeWhile (!endsNetloc ·)

/-- The path with its parameters, given the text after `//`. -/
def rawPathOf (rest : Str) : Str :=
  (rest.dropWhile (!endsNetloc ·)).takeWhile fun c ↦ c != '#' && c != '?'

def pathOf (rest : Str) : Str := (splitParams (rawPathOf rest)).1

/-- `http` or `https`, in any letter case. -/
def IsHttpScheme (p : Str) : Prop :=
  p.map Char.toLower = "http".toList ∨ p.map Char.toLower = "https".toList

theorem toNat_of_isAlphanum {c : Char} (hc : c.isAlphanum = true) :
    48 ≤ c.toNat ∧ c.toNat ≤ 122 := by
  have hranges : (decide (65 ≤ c.toNat ∧ c.toNat ≤ 90) ||
      (decide (97 ≤ c.toNat) && decide (c.toNat ≤ 122)) ||
      (decide (48 ≤ c.toNat) && decide (c.toNat ≤ 57))) = true := hc
  simp only [Bool.or_eq_true, Bool.and_eq_true, decide_eq_true_eq] at hranges
  omega

theorem isAscii_of_isAlphanum {c : Char} (hc : c.isAlphanum = true) : isAscii c = true := by
  have hrange := toNat_of_isAlphanum hc
  simp only [isAscii, decide_eq_true_eq]
  omega

theorem isAlpha_of_isUpper {c : Char} (hc : c.isUpper = true) : c.isAlpha = true :=
  Bool.or_eq_true_iff.mpr (.inl hc)

theorem toLower_of_not_isUpper {c : Char} (hc : ¬c.isUpper = true) : c.toLower = c :=
  dif_neg fun hrange ↦ hc (decide_eq_true hrange)

theorem isAlpha_of_toLower {c : Char} (hc : c.toLower.isAlpha = true) : c.isAlpha = true := by
  by_cases hup : c.isUpper = true
  · exact isAlpha_of_isUpper hup
  · rwa [toLower_of_not_isUpper hup] at hc

theorem IsHttpScheme.isAlpha {p : Str} (hp : IsHttpScheme p) {c : Char} (hc : c ∈ p) :
    c.isAlpha = true := by
  have hmem : c.toLower ∈ p.map Char.toLower := List.mem_map_of_mem hc
  have hall : ∀ d ∈ p.map Char.toLower, d.isAlpha = true := by
    rcases hp with hp | hp <;> rw [hp] <;> decide
  exact isAlpha_of_toLower (hall _ hmem)

theorem IsHttpScheme.ne_nil {p : Str} (hp : IsHttpScheme p) : p ≠ [] := by
  rintro rfl
  rcases hp with hp | hp <;> exact absurd hp (by decide)

theorem isAlpha_isAlphanum {c : Char} (hc : c.isAlpha = true) : c.isAlphanum = true := by
  simp [Char.isAlphanum, hc]

theorem splitScheme_http {p : Str} (hp : IsHttpScheme p) (rest : Str) :
    splitScheme (p ++ ':' :: rest) = (p.map Char.toLower, rest) := by
  have hcolon : ∀ c ∈ p, (c != ':') = true := by
    intro c hc
    have halpha := hp.isAlpha hc
    simp only [bne_iff_ne, ne_eq]
    rintro rfl
    exact absurd halpha (by decide)
  have htake : (p ++ ':' :: rest).takeWhile (· != ':') = p := by
    simp [List.takeWhile_append_of_pos hcolon]
  have hdrop : (p ++ ':' :: rest).dropWhile (· != ':') = ':' :: rest := by
    simp [List.dropWhile_append_of_pos hcolon]
  have hhead : p.head?.any Char.isAlpha = true := by
    cases p with
    | nil => exact absurd rfl hp.ne_nil
    | cons c p => simpa using hp.isAlpha (c := c) (by simp)
  have hall : p.all isSchemeChar = true := by
    rw [List.all_eq_true]
    intro c hc
    simp [isSchemeChar, isAlpha_isAlphanum (hp.isAlpha hc)]
  simp [splitScheme, htake, hdrop, hhead, hall]

theorem urlparse_http (T : Tables) {p rest : Str} (hp : IsHttpScheme p)
    (hclean : ∀ c ∈ rest, isUnsafe c = false) :
    (urlparse T (p ++ ':' :: '/' :: '/' :: rest)).map (fun r ↦ (r.scheme, r.netloc, r.path)) =
      if netlocOk T (netlocOf rest) then
        some (p.map Char.toLower, netlocOf rest, pathOf rest)
      else none := by
  have hstart : (p ++ ':' :: '/' :: '/' :: rest).dropWhile isControlOrSpace =
      p ++ ':' :: '/' :: '/' :: rest := by
    cases p with
    | nil => exact absurd rfl hp.ne_nil
    | cons c p =>
        have hge := toNat_of_isAlphanum (isAlpha_isAlphanum (hp.isAlpha (c := c) (by simp)))
        have hc : isControlOrSpace c = false := by
          simp only [isControlOrSpace, decide_eq_false_iff_not]
          omega
        exact List.dropWhile_cons_of_neg (by simp [hc])
  have hfilter : (p ++ ':' :: '/' :: '/' :: rest).filter (!isUnsafe ·) =
      p ++ ':' :: '/' :: '/' :: rest := by
    rw [List.filter_eq_self]
    intro c hc
    rcases List.mem_append.mp hc with hc | hc
    · have hge := toNat_of_isAlphanum (isAlpha_isAlphanum (hp.isAlpha hc))
      simp only [isUnsafe, Bool.not_eq_true', Bool.or_eq_false_iff, beq_eq_false_iff_ne]
      refine ⟨⟨?_, ?_⟩, ?_⟩ <;> rintro rfl <;> exact absurd hge (by decide)
    · rcases List.mem_cons.mp hc with rfl | hc
      · decide
      · rcases List.mem_cons.mp hc with rfl | hc
        · decide
        · rcases List.mem_cons.mp hc with rfl | hc
          · decide
          · simpa using hclean c hc
  have hscheme : usesParams.contains (p.map Char.toLower) = true := by
    rcases hp with hp | hp <;> rw [hp] <;> decide
  have hpath : (partition '?' (partition '#' (rest.dropWhile (!endsNetloc ·))).1).1 =
      rawPathOf rest := by
    simp only [partition, rawPathOf, List.takeWhile_takeWhile]
    congr 1
    funext c
    by_cases hq : c = '?' <;> by_cases hf : c = '#' <;> simp [hq, hf]
  unfold urlparse
  simp only [hstart, hfilter, splitScheme_http hp, splitNetloc, hscheme, if_true, hpath]
  change Option.map _ (if netlocOk T (netlocOf rest) then _ else none) = _
  split_ifs <;> rfl

end StorageReconciler.UrlSplit
