import StorageReconciler.Foundations.Strings

/-!
# Records shared by the services

The data classes of the application.  A row id is whatever type the table's key
column has, so it stays a parameter; a timestamp is only ever copied, and is
kept as a number.
-/

namespace StorageReconciler

abbrev DateTime := ℕ

structure StorageObject where
  bucket : Str
  key : Str
  size : ℕ
  lastModified : Option DateTime
  etag : Option Str
  deriving DecidableEq

structure TableColumnMapping where
  table : Str
  column : Str
  idColumn : Option Str
  deriving DecidableEq

structure ReconciliationRequest where
  mappings : List TableColumnMapping
  buckets : Option (List Str)
  keyPrefix : Option Str
  database : Option Str
  provider : Option Str
  deriving DecidableEq

structure DbFileReference (κ : Type*) where
  table : Str
  column : Str
  id : Option κ
  value : Str
  deriving DecidableEq

structure MatchedFile (κ : Type*) where
  path : Str
  bucket : Str
  size : ℕ
  table : Str
  column : Str
  id : Option κ
  lastModified : Option DateTime
  rawValue : Option Str
  deriving DecidableEq

structure MissingFile (κ : Type*) where
  path : Str
  table : Str
  column : Str
  id : Option κ
  bucket : Option Str
  rawValue : Option Str
  deriving DecidableEq

structure OrphanFile where
  path : Str
  bucket : Str
  size : ℕ
  lastModified : Option DateTime
  deriving DecidableEq

structure ReconciliationSummary where
  matchedCount : ℕ
  missingCount : ℕ
  orphanCount : ℕ
  databaseFileCount : ℕ
  storageObjectCount : ℕ
  otherProviderCount : ℕ
  differentProviderCount : ℕ
  protectedCount : ℕ
  contentReferenceCount : ℕ
  deriving DecidableEq

structure ReconciliationResult (κ : Type*) where
  matched : List (MatchedFile κ)
  missing : List (MissingFile κ)
  orphan : List OrphanFile
  «protected» : List OrphanFile
  summary : ReconciliationSummary
  deriving DecidableEq

/-- `a or b` for optional strings: an empty string counts as absent. -/
def orElse (a b : Option Str) : Option Str :=
  match a with
  | some (c :: s) => some (c :: s)
  | _ => b

/-- `mapping.id_column or "id"` -/
def idColumnOf (mapping : TableColumnMapping) : Str :=
  match mapping.idColumn with
  | some (c :: s) => c :: s
  | _ => "id".toList

end StorageReconciler
