import StorageReconciler.Foundations.UrlSplit
import StorageReconciler.Types

/-!
# Configured storage providers

What the environment says about the object stores, and the base URL of a
bucket.  An endpoint is an origin, a scheme and a host, and a region is a host
label, as the storage client requires; credentials and labels play no part here.
-/

namespace StorageReconciler

open Strings UrlSplit

def isHostChar (c : Char) : Bool :=
  c.isAlphanum || c == '.' || c == '-' || c == '_' || c == ':'

structure Endpoint where
  scheme : Str
  netloc : Str
  isHttpScheme : IsHttpScheme scheme
  netloc_ne_nil : netloc ≠ []
  isHostChar : ∀ c ∈ netloc, isHostChar c = true
  deriving DecidableEq

/-- The text of the setting. -/
def Endpoint.url (e : Endpoint) : Str := e.scheme ++ ':' :: '/' :: '/' :: e.netloc

structure S3ProviderConfig where
  key : Str
  region : Str
  endpoint : Option Endpoint
  forcePathStyle : Bool
  region_ne_nil : region ≠ []
  isRegionLabel : ∀ c ∈ region, c.isAlphanum = true ∨ c = '-'
  deriving DecidableEq

def awsProviderHint : Str := "aws".toList

/-- Providers in the order they are tried.  The default one is configured, and
only AWS comes without an endpoint. -/
structure Env where
  s3Providers : List S3ProviderConfig
  s3DefaultProviderKey : Option Str
  nodup : (s3Providers.map S3ProviderConfig.key).Nodup
  default_mem : ∀ k, s3DefaultProviderKey = some k → k ∈ s3Providers.map S3ProviderConfig.key
  endpoint_eq_none : ∀ p ∈ s3Providers, p.endpoint = none → p.key = awsProviderHint

def Env.provider? (env : Env) (key : Option Str) : Option S3ProviderConfig :=
  match key with
  | none => none
  | some [] => none
  | some (c :: s) => env.s3Providers.find? fun p ↦ decide (p.key = c :: s)

def awsHost (region : Str) : Str :=
  if region = "us-east-1".toList then "s3.amazonaws.com".toList
  else "s3.".toList ++ region ++ ".amazonaws.com".toList

/-- Path-style or virtual-hosted, as the provider is configured. -/
def buildBucketUrl (T : Tables) (env : Env) (providerKey : Option Str) (bucket : Str) : Str :=
  match env.provider? (orElse providerKey env.s3DefaultProviderKey) with
  | none => bucket
  | some config =>
      match config.endpoint with
      | some e =>
          let parts := (urlparse T e.url).map fun r ↦ (r.scheme, r.netloc)
          let (scheme, netloc) := parts.getD ([], [])
          if config.forcePathStyle then scheme ++ "://".toList ++ netloc ++ '/' :: bucket
          else scheme ++ "://".toList ++ bucket ++ '.' :: netloc
      | none => "https://".toList ++ bucket ++ '.' :: awsHost config.region

theorem isHttpScheme_https : IsHttpScheme "https".toList := .inr (by decide)

/-- The fixed entry of the Singapore region among the provider definitions. -/
def sgp1Endpoint : Endpoint where
  scheme := "https".toList
  netloc := "sgp1.digitaloceanspaces.com".toList
  isHttpScheme := isHttpScheme_https
  netloc_ne_nil := by decide
  isHostChar := by decide

def sgp1Provider : S3ProviderConfig where
  key := "do-sgp1".toList
  region := "sgp1".toList
  endpoint := some sgp1Endpoint
  forcePathStyle := true
  region_ne_nil := by decide
  isRegionLabel := by decide

/-- An environment with credentials for that provider only. -/
def sgp1Env : Env where
  s3Providers := [sgp1Provider]
  s3DefaultProviderKey := some "do-sgp1".toList
  nodup := by simp
  default_mem := by
    rintro k ⟨rfl⟩
    exact List.mem_singleton.mpr rfl
  endpoint_eq_none := by
    intro p hp hend
    obtain rfl := List.mem_singleton.mp hp
    exact absurd hend (Option.some_ne_none sgp1Endpoint)

/-! ## Provider definitions -/

structure ProviderDef where
  key : Str
  region : Option Str
  endpoint : Option Endpoint

def wasabiEndpoint : Endpoint where
  scheme := "https".toList
  netloc := "s3.ap-southeast-1.wasabisys.com".toList
  isHttpScheme := isHttpScheme_https
  netloc_ne_nil := by decide
  isHostChar := by decide

def sfo2Endpoint : Endpoint where
  scheme := "https".toList
  netloc := "sfo2.digitaloceanspaces.com".toList
  isHttpScheme := isHttpScheme_https
  netloc_ne_nil := by decide
  isHostChar := by decide

/-- `PROVIDER_DEFS`; only AWS takes its region and endpoint from the environment. -/
def providerDefs : List ProviderDef :=
  [⟨awsProviderHint, none, none⟩,
    ⟨"wasabi".toList, some "ap-southeast-1".toList, some wasabiEndpoint⟩,
    ⟨"do-sfo2".toList, some "sfo2".toList, some sfo2Endpoint⟩,
    ⟨"do-sgp1".toList, some "sgp1".toList, some sgp1Endpoint⟩]

/-- What `_read_s3_provider` may make of a definition, whatever the environment holds. -/
structure ProviderDef.Reads (d : ProviderDef) (config : S3ProviderConfig) : Prop where
  key : config.key = d.key
  region : ∀ r, d.region = some r → config.region = r
  endpoint : ∀ e, d.endpoint = some e → config.endpoint = some e

/-- Every provider is read from its definition. -/
def Env.IsConfigured (env : Env) : Prop :=
  ∀ config ∈ env.s3Providers, ∃ d ∈ providerDefs, d.Reads config

theorem sgp1Env_isConfigured : sgp1Env.IsConfigured := by
  intro config hconfig
  obtain rfl := List.mem_singleton.mp hconfig
  refine ⟨⟨"do-sgp1".toList, some "sgp1".toList, some sgp1Endpoint⟩, by simp [providerDefs], rfl,
    ?_, ?_⟩
  · rintro r ⟨rfl⟩
    rfl
  · rintro e ⟨rfl⟩
    rfl

/-! ## Hosts -/

theorem isHostChar_ascii {c : Char} (hc : isHostChar c = true) : isAscii c = true := by
  simp only [isHostChar, Bool.or_eq_true, beq_iff_eq] at hc
  rcases hc with (((hc | rfl) | rfl) | rfl) | rfl
  · exact isAscii_of_isAlphanum hc
  all_goals decide

end StorageReconciler
