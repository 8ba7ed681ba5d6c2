import StorageReconciler.Foundations.UrlRequest
import StorageReconciler.LinkCheckProgress
import StorageReconciler.ReferencedObjects

/-!
# Hosts that the link check contacts

The URLs of a report are opened if their host belongs to a configured provider.
The check of a URL looks at the URL of the report only, and not at those its
server redirects to.  It takes the host from `urlsplit`, which is not always the
host that `urlopen` connects to.
-/

namespace StorageReconciler

open Strings UrlSplit UrlRequest

/-! ## The check of a URL -/

/-- `SplitResult.hostname`, without user and port; a zone keeps its letter case. -/
def hostname (T : Tables) (netloc : Str) : Option Str :=
  let hostinfo := netloc.rtakeWhile (· != '@')
  let host :=
    if hostinfo.contains '[' then (partition ']' (partition '[' hostinfo).2).1
    else (partition ':' hostinfo).1
  if host = [] then none
  else some (lower T (host.takeWhile (· != '%')) ++ host.dropWhile (· != '%'))

/-- `urlsplit(url).hostname` -/
def splitHostname (T : Tables) (url : Str) : Option Str :=
  (urlparse T url).bind fun parsed ↦ hostname T parsed.netloc

def endpointHostname (T : Tables) (config : S3ProviderConfig) : Option Str :=
  (config.endpoint.bind fun e ↦ splitHostname T e.url).map (lower T)

/-- The host itself, or the end of it after a dot. -/
def isHostBelow (base host : Str) : Bool := host == base || ('.' :: base).isSuffixOf host

def configAccepts (T : Tables) (host : Str) (config : S3ProviderConfig) : Bool :=
  match endpointHostname T config with
  | some base => isHostBelow base host
  | none => config.key == awsProviderHint && amazonawsSuffix.isSuffixOf host

/-- There is no result where the URL is malformed, and the check raises. -/
def isConfiguredStorageUrl (T : Tables) (env : Env) (url : Str) : Option Bool :=
  (urlparse T url).map fun parsed ↦
    match hostname T parsed.netloc with
    | none => false
    | some host =>
        parsed.scheme == "https".toList && env.s3Providers.any (configAccepts T (lower T host))

/-! ## Opening a URL -/

/-- The answer to a request; the location of a redirect is resolved against its URL.  A file
from an FTP server comes without a status, and what is no HTTP raises. -/
inductive Reply where
  | success (status : Option ℕ)
  | redirect (status : ℕ) (reason location : Str)
  | failure (status : ℕ) (reason : Str)
  | unreachable (reason : Str)
  | garbled

inductive CheckOutcome where
  | checked (valid : Bool) (error : Option Str)
  | raised
  | unanswered
  deriving DecidableEq

def httpError (status : ℕ) (reason : Str) : CheckOutcome :=
  .checked false (some ("HTTP ".toList ++ (Nat.repr status).toList ++ ": ".toList ++ reason))

def connectionError (reason : Str) : CheckOutcome :=
  .checked false (some ("Connection error: ".toList ++ reason))

/-- The body is read for two statuses only. -/
def responseOutcome (status : Option ℕ) : CheckOutcome :=
  if status = some 200 ∨ status = some 206 then .checked true none
  else
    let text := (status.map fun n ↦ (Nat.repr n).toList).getD "None".toList
    .checked false (some ("HTTP ".toList ++ text))

def redirectSchemes : List Str := ["http", "https", "ftp"].map String.toList

/-- A redirect is not followed to another scheme, nor after too many of them. -/
def refusal (T : Tables) (visited : List Str) (status : ℕ) (reason location : Str) :
    Option CheckOutcome :=
  match urlparse T location with
  | none => some .raised
  | some parsed =>
      if !redirectSchemes.contains parsed.scheme then
        some (httpError status
          (reason ++ " - Redirection to url '".toList ++ location ++ "' is not allowed".toList))
      else if 4 ≤ visited.count location ∨ 10 ≤ visited.dedup.length then
        some (httpError status
          (("The HTTP server returned a redirect error that would lead to an infinite loop.\n" ++
            "The last 30x error message was:\n").toList ++ reason))
      else none

/-- The host that opening the URL connects to, or how the check ends before. -/
def connectedHost (T : Tables) (url : Str) : Except CheckOutcome Str :=
  match Request.ofUrl T url with
  | none => .error .raised
  | some request =>
      match request.connection T with
      | .ok host => .ok host
      | .error (.urlError reason) => .error (connectionError reason)
      | .error .raised => .error .raised

/-- The hosts contacted for a URL, and what becomes of the check, when the requests are
answered in turn. -/
def openUrl (T : Tables) : List Reply → List Str → Str → List Str × CheckOutcome
  | replies, visited, url =>
    match connectedHost T url with
    | .error outcome => ([], outcome)
    | .ok host =>
      match replies with
      | [] => ([host], .unanswered)
      | .success status :: _ => ([host], responseOutcome status)
      | .failure status reason :: _ => ([host], httpError status reason)
      | .unreachable reason :: _ => ([host], connectionError reason)
      | .garbled :: _ => ([host], .raised)
      | .redirect status reason location :: replies =>
          match refusal T visited status reason location with
          | some outcome => ([host], outcome)
          | none =>
              let rest := openUrl T replies (location :: visited) location
              (host :: rest.1, rest.2)

def checkUrl (T : Tables) (env : Env) (url : Str) (replies : List Reply) :
    List Str × CheckOutcome :=
  match isConfiguredStorageUrl T env url with
  | none => ([], .raised)
  | some false => ([], .checked false (some ("Destination URL is not an HTTPS URL for a " ++
      "configured storage provider").toList))
  | some true => openUrl T replies [] url

/-- The hosts that the checks of the items contact, `replies` answering each in turn. -/
def contactedHosts (T : Tables) (env : Env) (items : List ValidateUrlItem)
    (replies : ℕ → List Reply) : List Str :=
  items.zipIdx.flatMap fun p ↦ (checkUrl T env p.1.destinationUrl (replies p.2)).1

/-! ## The hosts of a check -/

/-- The hosts connected to for the redirects that are followed. -/
def redirectedHosts (T : Tables) : List Reply → List Str → List Str
  | .redirect status reason location :: replies, visited =>
      match refusal T visited status reason location, connectedHost T location with
      | none, .ok host => host :: redirectedHosts T replies (location :: visited)
      | _, _ => []
  | _, _ => []

theorem openUrl_hosts {T : Tables} (replies : List Reply) (visited : List Str) {url host : Str}
    (hhost : connectedHost T url = .ok host) :
    (openUrl T replies visited url).1 = host :: redirectedHosts T replies visited := by
  induction replies generalizing visited url host with
  | nil => simp [openUrl, redirectedHosts, hhost]
  | cons reply replies ih =>
      cases reply with
      | success status => simp [openUrl, redirectedHosts, hhost]
      | failure status reason => simp [openUrl, redirectedHosts, hhost]
      | unreachable reason => simp [openUrl, redirectedHosts, hhost]
      | garbled => simp [openUrl, redirectedHosts, hhost]
      | redirect status reason location =>
          cases hrefusal : refusal T visited status reason location with
          | some outcome => simp [openUrl, redirectedHosts, hhost, hrefusal]
          | none =>
              cases htarget : connectedHost T location with
              | error outcome =>
                  cases replies <;> simp [openUrl, redirectedHosts, hhost, hrefusal, htarget]
              | ok target =>
                  have hrest := ih (location :: visited) htarget
                  rw [openUrl]
                  simp only [hhost, hrefusal]
                  rw [hrest]
                  simp [redirectedHosts, hrefusal, htarget]

theorem openUrl_hosts_of_error {T : Tables} (replies : List Reply) (visited : List Str) {url : Str}
    {outcome : CheckOutcome} (h : connectedHost T url = .error outcome) :
    (openUrl T replies visited url).1 = [] := by
  cases replies <;> simp [openUrl, h]

theorem checkUrl_hosts {T : Tables} {env : Env} {url : Str} (replies : List Reply)
    (hvalid : isConfiguredStorageUrl T env url = some true) :
    (checkUrl T env url replies).1 = (openUrl T replies [] url).1 := by
  rw [checkUrl, hvalid]

theorem mem_checkUrl_hosts {T : Tables} {env : Env} {url contacted : Str} {replies : List Reply}
    (hmem : contacted ∈ (checkUrl T env url replies).1) :
    isConfiguredStorageUrl T env url = some true := by
  rw [checkUrl] at hmem
  split at hmem
  · exact absurd hmem List.not_mem_nil
  · exact absurd hmem List.not_mem_nil
  · assumption

/-! ## Storage hosts -/

/-- The host of an endpoint, or a name below it, which an IPv6 address is not. -/
def IsEndpointHost (T : Tables) (env : Env) (host : Str) : Prop :=
  ∃ config ∈ env.s3Providers, ∃ base, endpointHostname T config = some base ∧
    (lower T host = base ∨ ':' ∉ host ∧ '.' :: base <:+ lower T host)

/-- A host of the pattern of AWS, where AWS is configured without an endpoint. -/
def IsAwsStorageHost (T : Tables) (env : Env) (host : Str) : Prop :=
  (∃ config ∈ env.s3Providers, config.key = awsProviderHint ∧ config.endpoint = none) ∧
    (beforeAwsHost (lower T host)).isSome

def IsStorageHost (T : Tables) (env : Env) (host : Str) : Prop :=
  IsEndpointHost T env host ∨ IsAwsStorageHost T env host

/-- The host that is connected to is the one that the check has read, and it is not for a
suffix of AWS alone that it was accepted. -/
structure IsPlainlyRead (T : Tables) (url host : Str) : Prop where
  same : (splitHostname T url).map (lower T) = some (lower T host)
  isName : ':' ∉ host
  unsuffixed : ¬ amazonawsSuffix <:+ lower T host

/-- The host is a storage host where it is read in another way than the check reads it or is
accepted for its suffix alone, and so are the hosts of the redirects. -/
structure StaysOnStorage (T : Tables) (env : Env) (url host : Str) (replies : List Reply) :
    Prop where
  opened : ¬ IsPlainlyRead T url host → IsStorageHost T env host
  redirected : ∀ target ∈ redirectedHosts T replies [], IsStorageHost T env target

theorem isConfiguredStorageUrl_cases {T : Tables} {env : Env} {url : Str}
    (hvalid : isConfiguredStorageUrl T env url = some true) :
    ∃ read, splitHostname T url = some read ∧ ∃ config ∈ env.s3Providers,
      configAccepts T (lower T read) config = true := by
  rw [isConfiguredStorageUrl, Option.map_eq_some_iff] at hvalid
  obtain ⟨parsed, hparsed, hvalid⟩ := hvalid
  cases hread : hostname T parsed.netloc with
  | none =>
      rw [hread] at hvalid
      exact absurd hvalid Bool.false_ne_true
  | some read =>
      rw [hread] at hvalid
      simp only [Bool.and_eq_true, List.any_eq_true] at hvalid
      refine ⟨read, ?_, hvalid.2⟩
      rw [splitHostname, hparsed]
      exact hread

theorem IsPlainlyRead.isStorageHost {T : Tables} {env : Env} {url host : Str}
    (h : IsPlainlyRead T url host) (hvalid : isConfiguredStorageUrl T env url = some true) :
    IsStorageHost T env host := by
  obtain ⟨read, hread, config, hconfig, haccepts⟩ := isConfiguredStorageUrl_cases hvalid
  have hsame : lower T read = lower T host := by
    have hmap := h.same
    rw [hread] at hmap
    exact Option.some.inj hmap
  rw [hsame, configAccepts] at haccepts
  split at haccepts
  · rename_i base hbase
    refine .inl ⟨config, hconfig, base, hbase, ?_⟩
    rw [isHostBelow, Bool.or_eq_true, beq_iff_eq, List.isSuffixOf_iff_suffix] at haccepts
    exact haccepts.imp_right fun hbelow ↦ ⟨h.isName, hbelow⟩
  · rw [Bool.and_eq_true, List.isSuffixOf_iff_suffix] at haccepts
    exact absurd haccepts.2 h.unsuffixed

theorem checkUrl_onStorage_iff {T : Tables} {env : Env} {url : Str} {replies : List Reply}
    (hvalid : isConfiguredStorageUrl T env url = some true) :
    (∀ host ∈ (checkUrl T env url replies).1, IsStorageHost T env host) ↔
      ∀ host, connectedHost T url = .ok host → StaysOnStorage T env url host replies := by
  rw [checkUrl_hosts replies hvalid]
  cases hhost : connectedHost T url with
  | error outcome =>
      rw [openUrl_hosts_of_error replies [] hhost]
      exact iff_of_true (fun _ hmem ↦ absurd hmem List.not_mem_nil) fun _ hok ↦ by cases hok
  | ok host =>
      rw [openUrl_hosts replies [] hhost, List.forall_mem_cons]
      constructor
      · rintro ⟨hfirst, hrest⟩ host' hhost'
        obtain rfl : host = host' := Except.ok.inj hhost'
        exact ⟨fun _ ↦ hfirst, hrest⟩
      · intro hstays
        obtain ⟨hopened, hredirected⟩ := hstays host rfl
        refine ⟨?_, hredirected⟩
        by_cases hplain : IsPlainlyRead T url host
        · exact hplain.isStorageHost hvalid
        · exact hopened hplain

def machineUrl : Str := "https://ec2-203-0-113-7.compute-1.amazonaws.com/".toList

def metadataUrl : Str := "http://169.254.169.254/latest/meta-data/".toList

def spacesUrl : Str := "https://sgp1.digitaloceanspaces.com/media/a.png".toList

/-- Two colons after the host of the endpoint. -/
def twoColonsUrl : Str := "https://sgp1.digitaloceanspaces.com:x.evil.test:443/a".toList

theorem not_isStorageHost_sgp1 {host : Str}
    (hendpoint : lower Tables.ascii host ≠ "sgp1.digitaloceanspaces.com".toList)
    (hbelow : ¬ ".sgp1.digitaloceanspaces.com".toList <:+ lower Tables.ascii host)
    (haws : beforeAwsHost (lower Tables.ascii host) = none) :
    ¬ IsStorageHost Tables.ascii sgp1Env host := by
  have hsgp1 : endpointHostname Tables.ascii sgp1Provider =
      some "sgp1.digitaloceanspaces.com".toList := by decide
  rintro (⟨config, hconfig, base, hbase, hhost⟩ | ⟨_, hsome⟩)
  · obtain rfl := List.mem_singleton.mp hconfig
    obtain rfl := Option.some.inj (hsgp1.symm.trans hbase)
    rcases hhost with hsame | ⟨_, hsuffix⟩
    · exact hendpoint hsame
    · exact hbelow hsuffix
  · rw [haws] at hsome
    exact absurd hsome Bool.false_ne_true

end StorageReconciler
