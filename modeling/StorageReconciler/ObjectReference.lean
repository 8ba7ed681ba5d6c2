import StorageReconciler.Config
import StorageReconciler.Foundations.Patterns
import StorageReconciler.Foundations.PercentCoding

/-!
# Reading a stored value as an object reference

A column holds a bare key, an address behind some other host, or an address at
a provider, and `splitObjectReference` sorts them apart.  A configured endpoint
is tried first, in the order of the configuration; the host names of AWS are
recognised by their shape alone.
-/

namespace StorageReconciler

open Strings Patterns UrlSplit PercentCoding

structure ObjectReference where
  bucket : Option Str
  key : Str
  providerHint : Option Str
  deriving DecidableEq

/-! ## The host pattern of AWS -/

/-- `[a-z0-9-]`, letter case ignored. -/
def isRegionChar (c : Char) : Bool :=
  c.isAlphanum || c == '-' || c.toNat == 0x130 || c.toNat == 0x131 || c.toNat == 0x17F ||
    c.toNat == 0x212A

/-- `(?:[.-][a-z0-9-]+)?` against the whole text. -/
def isRegionPart : Str → Bool
  | [] => true
  | c :: region => (c == '.' || c == '-') && !region.isEmpty && region.all isRegionChar

def amazonawsSuffix : Str := ".amazonaws.com".toList

/-- `s3(?:[.-][a-z0-9-]+)?\.amazonaws\.com` against the whole text. -/
def isAwsHost : Str → Bool
  | s :: d :: rest =>
      let n := rest.length - amazonawsSuffix.length
      reEq 's' s && d == '3' && isRegionPart (rest.take n) &&
        (rest.drop n).length == amazonawsSuffix.length &&
        (List.zipWith reEq amazonawsSuffix (rest.drop n)).all id
  | _ => false

/-- The text before the first `.` after which the whole rest is an AWS host. -/
def beforeDottedAwsHost : Str → Option Str
  | [] => none
  | c :: rest =>
      if c == '.' && isAwsHost rest then some []
      else (beforeDottedAwsHost rest).map (c :: ·)

/-- What stands before the leftmost match; `$` also holds before a final newline. -/
def beforeAwsHost (host : Str) : Option Str :=
  let host := if host.getLast? = some '\n' then host.dropLast else host
  if isAwsHost host then some [] else beforeDottedAwsHost host

/-! ## Splitting -/

def endpointHost (T : Tables) (e : Endpoint) : Str :=
  lower T (((urlparse T e.url).map ParseResult.netloc).getD [])

def matchProvider (T : Tables) (pathname hostLower : Str) (config : S3ProviderConfig) :
    Option ObjectReference :=
  match config.endpoint with
  | none => none
  | some e =>
      let endpointHost := endpointHost T e
      if endpointHost = [] then none
      else if config.forcePathStyle && hostLower == endpointHost then
        let (bucket, rest) := partition '/' pathname
        if bucket ≠ [] then some ⟨some bucket, rest, some config.key⟩ else none
      else if !config.forcePathStyle && ('.' :: endpointHost).isSuffixOf hostLower then
        let bucket := hostLower.take (hostLower.length - (endpointHost.length + 1))
        if bucket ≠ [] then some ⟨some bucket, pathname, some config.key⟩ else none
      else none

def matchAws (pathname hostLower : Str) : Option ObjectReference :=
  match beforeAwsHost hostLower with
  | none => none
  | some before =>
      if rstripChar '.' before ≠ [] then
        some ⟨some (rstripChar '.' before), pathname, some awsProviderHint⟩
      else
        let (bucket, rest) := partition '/' pathname
        if bucket ≠ [] then some ⟨some bucket, rest, some awsProviderHint⟩ else none

def splitS3StyleUrl (T : Tables) (env : Env) (pathname host : Str) : Option ObjectReference :=
  let hostLower := lower T host
  (env.s3Providers.findSome? (matchProvider T pathname hostLower)).or
    (matchAws pathname hostLower)

/-- The value names a web address. -/
def startsWithHttp (T : Tables) (value : Str) : Bool :=
  "http://".toList.isPrefixOf (lower T value) || "https://".toList.isPrefixOf (lower T value)

def splitObjectReference (T : Tables) (env : Env) (value : Str) : ObjectReference :=
  let trimmed := strip value
  if !startsWithHttp T trimmed then ⟨none, lstripChar '/' trimmed, none⟩
  else
    match urlparse T trimmed with
    | none => ⟨none, lstripChar '/' trimmed, none⟩
    | some parsed =>
        let pathname := lstripChar '/' (unquote parsed.path)
        match splitS3StyleUrl T env pathname parsed.netloc with
        | some r => { r with key := lstripChar '/' r.key }
        | none => ⟨none, pathname, none⟩

/-! ## What the branches return -/

theorem netlocOk_of_isHostChar (T : Tables) {netloc : Str}
    (h : ∀ c ∈ netloc, isHostChar c = true) : netlocOk T netloc = true := by
  have hopen : netloc.contains '[' = false := by
    rw [List.contains_eq_mem, decide_eq_false_iff_not]
    exact fun hmem ↦ absurd (h _ hmem) (by decide)
  have hclose : netloc.contains ']' = false := by
    rw [List.contains_eq_mem, decide_eq_false_iff_not]
    exact fun hmem ↦ absurd (h _ hmem) (by decide)
  have hascii : netloc.all isAscii = true :=
    List.all_eq_true.mpr fun c hc ↦ isHostChar_ascii (h c hc)
  simp only [netlocOk, bracketsOk, normalizedOk, hopen, hclose, hascii]
  rfl

theorem isHostChar_endsNetloc {c : Char} (hc : isHostChar c = true) : endsNetloc c = false := by
  by_contra h
  simp only [endsNetloc, Bool.not_eq_false, Bool.or_eq_true, beq_iff_eq] at h
  rcases h with (rfl | rfl) | rfl <;> exact absurd hc (by decide)

theorem isHostChar_isUnsafe {c : Char} (hc : isHostChar c = true) : isUnsafe c = false := by
  by_contra h
  simp only [isUnsafe, Bool.not_eq_false, Bool.or_eq_true, beq_iff_eq] at h
  rcases h with (rfl | rfl) | rfl <;> exact absurd hc (by decide)

theorem netlocOf_append {netloc : Str} (h : ∀ c ∈ netloc, isHostChar c = true) (rest : Str)
    (hrest : ∀ c, rest.head? = some c → endsNetloc c = true) :
    netlocOf (netloc ++ rest) = netloc := by
  have hpos : ∀ c ∈ netloc, (!endsNetloc c) = true := fun c hc ↦ by
    simp [isHostChar_endsNetloc (h c hc)]
  rw [netlocOf, List.takeWhile_append_of_pos hpos]
  cases rest with
  | nil => simp
  | cons c rest => simp [hrest c rfl]

theorem Endpoint.urlparse_url (T : Tables) (e : Endpoint) :
    ∃ r, urlparse T e.url = some r ∧ r.scheme = e.scheme.map Char.toLower ∧
      r.netloc = e.netloc := by
  have hnetloc : netlocOf e.netloc = e.netloc := by
    simpa using netlocOf_append e.isHostChar [] (by simp)
  have hclean : ∀ c ∈ e.netloc, isUnsafe c = false := fun c hc ↦
    isHostChar_isUnsafe (e.isHostChar c hc)
  have hparse := urlparse_http T e.isHttpScheme hclean
  rw [hnetloc, netlocOk_of_isHostChar T e.isHostChar, if_pos rfl, Option.map_eq_some_iff] at hparse
  obtain ⟨r, hr, heq⟩ := hparse
  obtain ⟨hscheme, hhost, _⟩ := Prod.ext_iff.mp heq |>.imp_right Prod.ext_iff.mp
  exact ⟨r, hr, hscheme, hhost⟩

theorem endpointHost_eq (T : Tables) (e : Endpoint) :
    endpointHost T e = e.netloc.map Char.toLower := by
  obtain ⟨r, hr, _, hhost⟩ := e.urlparse_url T
  simp only [endpointHost, hr, Option.map_some, Option.getD_some, hhost]
  exact lower_of_ascii T fun c hc ↦ isHostChar_ascii (e.isHostChar c hc)

theorem splitObjectReference_bare {T : Tables} {env : Env} {value : Str}
    (h : startsWithHttp T (strip value) = false) :
    splitObjectReference T env value = ⟨none, lstripChar '/' (strip value), none⟩ := by
  simp [splitObjectReference, h]

theorem startsWithHttp_of_isHttpScheme (T : Tables) {p rest : Str} (hp : IsHttpScheme p) :
    startsWithHttp T (p ++ ':' :: '/' :: '/' :: rest) = true := by
  have hascii : ∀ c ∈ p ++ "://".toList, isAscii c = true := by
    intro c hc
    rcases List.mem_append.mp hc with hc | hc
    · exact isAscii_of_isAlphanum (isAlpha_isAlphanum (hp.isAlpha hc))
    · have hall : ∀ d ∈ "://".toList, isAscii d = true := by decide
      exact hall c hc
  have hsplit : p ++ ':' :: '/' :: '/' :: rest = (p ++ "://".toList) ++ rest := by simp
  rw [startsWithHttp, hsplit, lower_append, lower_of_ascii T hascii, List.map_append,
    Bool.or_eq_true, List.isPrefixOf_iff_prefix, List.isPrefixOf_iff_prefix]
  rcases hp with hp | hp
  · left
    rw [hp]
    exact ⟨lower T rest, rfl⟩
  · right
    rw [hp]
    exact ⟨lower T rest, rfl⟩

/-- The reference a host and a path lead to. -/
def referenceAt (T : Tables) (env : Env) (netloc path : Str) : ObjectReference :=
  match splitS3StyleUrl T env (lstripChar '/' (unquote path)) netloc with
  | some r => { r with key := lstripChar '/' r.key }
  | none => ⟨none, lstripChar '/' (unquote path), none⟩

/-- A web address is read from its host and path, or taken whole where the host
is malformed. -/
theorem splitObjectReference_http {T : Tables} {env : Env} {p rest value : Str}
    (hp : IsHttpScheme p) (hclean : ∀ c ∈ rest, isUnsafe c = false)
    (hvalue : strip value = p ++ ':' :: '/' :: '/' :: rest) :
    splitObjectReference T env value =
      if netlocOk T (netlocOf rest) then referenceAt T env (netlocOf rest) (pathOf rest)
      else ⟨none, lstripChar '/' (strip value), none⟩ := by
  have hparse := urlparse_http T hp hclean
  have hhttp : startsWithHttp T (strip value) = true := by
    rw [hvalue]
    exact startsWithHttp_of_isHttpScheme T hp
  simp only [splitObjectReference, hhttp, Bool.not_true, Bool.false_eq_true, if_false]
  rw [hvalue]
  split_ifs with hok
  · rw [if_pos hok, Option.map_eq_some_iff] at hparse
    obtain ⟨r, hr, heq⟩ := hparse
    obtain ⟨_, hhost, hpath⟩ := Prod.ext_iff.mp heq |>.imp_right Prod.ext_iff.mp
    simp only at hhost hpath
    simp only [hr, hhost, hpath]
    rfl
  · rw [if_neg hok, Option.map_eq_none_iff] at hparse
    rw [hparse]

end StorageReconciler
