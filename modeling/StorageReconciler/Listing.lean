import StorageReconciler.Foundations.TokenPaging
import StorageReconciler.Reconciliation
import StorageReconciler.Fetching

/-!
# Listing a bucket

A bucket is listed page by page.  The service is known by its replies: to each
request, if it does not fail, it answers with a page of the objects whose key
begins with the requested prefix, and pages follow each other by their tokens
until every such object was delivered.
-/

namespace StorageReconciler

open Strings TokenPaging

variable {κ : Type*}

/-- One entry of `Contents`. -/
structure S3Object where
  key : Str
  size : Option ℕ
  lastModified : Option DateTime
  etag : Option Str
  deriving DecidableEq

structure ListObjectsRequest where
  bucket : Str
  maxKeys : ℕ
  keyPrefix : Option Str
  continuationToken : Option Str
  deriving DecidableEq

structure ListObjectsReply where
  contents : Option (List S3Object)
  isTruncated : Option Bool
  nextContinuationToken : Option Str

structure ListObjectsPage where
  objects : List StorageObject
  isTruncated : Bool
  nextContinuationToken : Option Str

/-- `list_objects_v2` of a provider's client. -/
abbrev ListObjects := ListObjectsRequest → Except Str ListObjectsReply

def maxKeysPerPage : ℕ := 1000

def toStorageObject (bucket : Str) (obj : S3Object) : StorageObject :=
  ⟨bucket, obj.key, obj.size.getD 0, obj.lastModified, obj.etag⟩

/-- An empty prefix or token is not sent. -/
def listObjectsRequest (bucket : Str) (keyPrefix : Option Str) (maxKeys : Option ℕ)
    (continuationToken : Option Str) : ListObjectsRequest where
  bucket := bucket
  maxKeys := match maxKeys with
    | some (n + 1) => n + 1
    | _ => maxKeysPerPage
  keyPrefix := orElse keyPrefix none
  continuationToken := orElse continuationToken none

def toListObjectsPage (bucket : Str) (reply : ListObjectsReply) : ListObjectsPage where
  objects := (reply.contents.getD []).map (toStorageObject bucket)
  isTruncated := reply.isTruncated.getD false
  nextContinuationToken := reply.nextContinuationToken

def listObjectsPage (listObjects : ListObjects) (bucket : Str) (keyPrefix : Option Str)
    (maxKeys : Option ℕ) (continuationToken : Option Str) : Except Str ListObjectsPage :=
  (listObjects (listObjectsRequest bucket keyPrefix maxKeys continuationToken)).map
    (toListObjectsPage bucket)

/-- The objects of a page, and the token to go on with. -/
def ListObjectsPage.toPage (page : ListObjectsPage) : Page Str StorageObject where
  items := page.objects
  next := if page.isTruncated then orElse page.nextContinuationToken none else none

/-- All objects of a bucket, in at most `fuel` pages. -/
def iterateBucketObjects (listObjects : ListObjects) (bucket : Str) (keyPrefix : Option Str)
    (fuel : ℕ) : Option (Except Str (List StorageObject)) :=
  collect (fun token ↦
    (listObjectsPage listObjects bucket keyPrefix none token).map ListObjectsPage.toPage) fuel none

/-- Listing the bucket ends with this outcome. -/
def CollectsBucket (listObjects : ListObjects) (bucket : Str) (keyPrefix : Option Str)
    (outcome : Except Str (List StorageObject)) : Prop :=
  ∃ fuel, iterateBucketObjects listObjects bucket keyPrefix fuel = some outcome

/-! ## What a service lists -/

/-- The key begins with the prefix, if there is one. -/
def HasPrefix (keyPrefix : Option Str) (k : Str) : Prop := ∀ p, keyPrefix = some p → p <+: k

instance (keyPrefix : Option Str) (k : Str) : Decidable (HasPrefix keyPrefix k) :=
  match keyPrefix with
  | none => isTrue fun _ h ↦ by cases h
  | some p => decidable_of_iff (p <+: k) ⟨fun h _ hp ↦ Option.some.inj hp ▸ h, fun h ↦ h p rfl⟩

theorem hasPrefix_orElse {keyPrefix : Option Str} {k : Str} :
    HasPrefix (orElse keyPrefix none) k ↔ HasPrefix keyPrefix k := by
  rcases keyPrefix with - | - | ⟨c, p⟩
  · rfl
  · simp [orElse, HasPrefix]
  · rfl

/-- The right replies about a storage: whatever the prefix, the pages deliver the
objects whose key begins with it. -/
structure ListingService (storage : Str → List S3Object) where
  reply : ListObjectsRequest → ListObjectsReply
  delivers : ∀ bucket keyPrefix, TokenPaging.Delivers (fun token ↦
      (toListObjectsPage bucket
        (reply (listObjectsRequest bucket keyPrefix none token))).toPage) none
    (((storage bucket).filter fun obj ↦ decide (HasPrefix (orElse keyPrefix none) obj.key)).map
      (toStorageObject bucket))

/-- Every reply that comes at all is right. -/
def ListingService.Answers {storage : Str → List S3Object} (service : ListingService storage)
    (listObjects : ListObjects) : Prop :=
  ∀ request reply, listObjects request = .ok reply → reply = service.reply request

/-- The objects of a bucket that a listing with the prefix is to deliver. -/
def listedObjects (storage : Str → List S3Object) (keyPrefix : Option Str) (bucket : Str) :
    List StorageObject :=
  ((storage bucket).filter fun obj ↦ decide (HasPrefix keyPrefix obj.key)).map
    (toStorageObject bucket)

section Service

variable {storage : Str → List S3Object} {service : ListingService storage}
  {listObjects : ListObjects} {bucket : Str} {keyPrefix : Option Str}

/-- Listing a bucket ends, and without an error it has listed all that the prefix admits. -/
theorem ListingService.Answers.collects (h : service.Answers listObjects) (bucket : Str)
    (keyPrefix : Option Str) :
    ∃ outcome, CollectsBucket listObjects bucket keyPrefix outcome ∧
      ∀ objs, outcome = .ok objs → objs = listedObjects storage keyPrefix bucket := by
  have hcall : ∀ token page,
      (listObjectsPage listObjects bucket keyPrefix none token).map ListObjectsPage.toPage =
        .ok page → page = (toListObjectsPage bucket
          (service.reply (listObjectsRequest bucket keyPrefix none token))).toPage := by
    intro token page hpage
    rw [listObjectsPage] at hpage
    cases hreply : listObjects (listObjectsRequest bucket keyPrefix none token) with
    | error e => simp [hreply, Except.map] at hpage
    | ok reply =>
        rw [hreply] at hpage
        rw [← h _ reply hreply]
        exact (Except.ok.inj hpage).symm
  obtain ⟨fuel, outcome, houtcome, hread⟩ := (service.delivers bucket keyPrefix).collect_ends hcall
  refine ⟨outcome, ⟨fuel, houtcome⟩, fun objs hobjs ↦ ?_⟩
  rw [hread objs hobjs, listedObjects]
  simp only [hasPrefix_orElse]

theorem ListingService.Answers.eq_listedObjects (h : service.Answers listObjects)
    {objs : List StorageObject}
    (hcollects : CollectsBucket listObjects bucket keyPrefix (.ok objs)) :
    objs = listedObjects storage keyPrefix bucket := by
  obtain ⟨outcome, ⟨fuel', houtcome⟩, hread⟩ := h.collects bucket keyPrefix
  obtain ⟨fuel, hobjs⟩ := hcollects
  exact hread objs (collect_unique houtcome hobjs)

end Service

theorem mem_listedObjects {storage : Str → List S3Object} {keyPrefix : Option Str}
    {bucket k : Str} :
    (∃ obj ∈ listedObjects storage keyPrefix bucket, obj.key = k) ↔
      HasPrefix keyPrefix k ∧ ∃ obj ∈ storage bucket, obj.key = k := by
  simp only [listedObjects, List.mem_map, List.mem_filter, decide_eq_true_eq]
  constructor
  · rintro ⟨_, ⟨obj, ⟨hobj, hp⟩, rfl⟩, rfl⟩
    exact ⟨hp, obj, hobj, rfl⟩
  · rintro ⟨hp, obj, hobj, rfl⟩
    exact ⟨_, ⟨obj, ⟨hobj, hp⟩, rfl⟩, rfl⟩

end StorageReconciler
