import Mathlib.Data.List.Sort
import StorageReconciler.CheckpointFiles
import StorageReconciler.CopiedContents
import StorageReconciler.Foundations.GrowingFiles
import StorageReconciler.Foundations.JsonFronts

/-!
# The history of copies

Every copy leaves an audit file, which is written in place when the copy is done.  The
files are listed and read back while others are being written, and what is read back
says which sources may be deleted.
-/

namespace StorageReconciler

open Strings IsoTimestamps GrowingFiles

variable {σ : Type*}

/-! ## Audit files -/

/-- A value of a request, if `json.dump` writes it as JSON. -/
def cellToJson : Cell → Option Json
  | .blank => some .null
  | .text s => some (.str s)
  | .number printed _ =>
      if h : Json.isNumeral printed = true then some (.num ⟨printed, h⟩) else none

/-- `CopyItem.model_dump` -/
def copyItemToDict (item : CopyItem) : Option Json := do
  let sizeMb ← cellToJson item.sizeMb
  let rowId ← cellToJson item.rowId
  return .obj [("bucket".toList, .str item.bucket), ("key".toList, .str item.key),
    ("sizeMb".toList, sizeMb), ("path".toList, optionText item.path),
    ("table".toList, optionText item.table), ("column".toList, optionText item.column),
    ("rowId".toList, rowId)]

def copyResultToDict (r : CopyResult) : Json :=
  .obj [("bucket".toList, .str r.bucket), ("key".toList, .str r.key),
    ("destBucket".toList, .str r.destBucket), ("destKey".toList, .str r.destKey),
    ("success".toList, .bool r.success), ("skipped".toList, .bool r.skipped),
    ("error".toList, optionText r.error)]

/-- A finished copy, with the objects before and after it. -/
structure CopyAudit (σ : Type*) where
  timestamp : DateTime
  isMoment : IsMoment timestamp
  body : CopyBody
  requested : List Json
  dumped : body.items.mapM copyItemToDict = some requested
  results : List CopyResult
  reportFile : Option Str
  before : Objects σ
  after : Objects σ

namespace CopyAudit

variable (audit : CopyAudit σ)

def json : Json :=
  .obj [("timestamp".toList, .str (isoformat audit.timestamp)),
    ("sourceProvider".toList, .str audit.body.sourceProvider),
    ("destProvider".toList, .str audit.body.destProvider),
    ("destBucket".toList, optionText audit.body.destBucket),
    ("reportFile".toList, optionText audit.reportFile),
    ("requested".toList, .arr audit.requested),
    ("results".toList, .arr (audit.results.map copyResultToDict))]

/-- `_write_copy_audit_log` -/
def text : Str := audit.json.dumpsIndented

end CopyAudit

/-- `f"{datetime.now(timezone.utc):%Y%m%dT%H%M%S}-{uuid.uuid4().hex[:8]}.json"` -/
def auditName (stamp hex : Str) : Str := stamp ++ '-' :: (hex ++ ".json".toList)

/-- The audit is that of an accepted request whose copy has ended. -/
structure CopyAudit.Fits [DecidableEq σ] (store : Str → σ) (name : Str) (audit : CopyAudit σ) :
    Prop where
  named : ∃ stamp hex, '/' ∉ stamp ∧ '/' ∉ hex ∧ name = auditName stamp hex
  accepted : validateCopyBody audit.body = .ok ()
  copied : ∃ bucketErrors, CopiesTo (copyCallOf store audit.body) bucketErrors audit.before
    audit.after audit.results

abbrev CopyHistory (σ : Type*) := Folder Str Char (CopyAudit σ)

/-- Copies end side by side, and their audits are written in whatever pieces. -/
def CopyHistory.Step [DecidableEq σ] (store : Str → σ) : CopyHistory σ → CopyHistory σ → Prop :=
  Folder.Step CopyAudit.text (CopyAudit.Fits store)

/-! ## Routes -/

/-- A route answers with an error of its own, or fails. -/
inductive RouteError where
  | http (status : ℕ) (detail : Str)
  | uncaught (e : LoadError)
  deriving DecidableEq

/-- `d.get(name)` -/
def Json.dictGet (d : Json) (name : Str) : Except LoadError Json :=
  match d with
  | .obj _ => .ok ((d.get? name).getD .null)
  | _ => .error .typeError

/-- Whether a flag is set; any value but a flag is an error here. -/
def Json.asFlag : Json → Except LoadError Bool
  | .bool b => .ok b
  | .null => .ok false
  | _ => .error .typeError

/-- `record.get("results") or []` -/
def auditResults (record : Json) : Except LoadError (List Json) := do
  match ← record.dictGet "results".toList with
  | .null => return []
  | v => v.asList

def resultFlag (name : Str) (r : Json) : Except LoadError Bool := do
  (← r.dictGet name).asFlag

structure CopyEntry where
  file : Str
  timestamp : Json
  sourceProvider : Json
  destProvider : Json
  destBucket : Json
  reportFile : Json
  itemCount : ℕ
  succeededCount : ℕ
  skippedCount : ℕ
  failedCount : ℕ

def copyEntry (name : Str) (record : Json) : Except LoadError CopyEntry := do
  let results ← auditResults record
  let timestamp ← record.dictGet "timestamp".toList
  let sourceProvider ← record.dictGet "sourceProvider".toList
  let destProvider ← record.dictGet "destProvider".toList
  let destBucket ← record.dictGet "destBucket".toList
  let reportFile ← record.dictGet "reportFile".toList
  let succeeded ← results.mapM (resultFlag "success".toList)
  let skipped ← results.mapM (resultFlag "skipped".toList)
  return ⟨name, timestamp, sourceProvider, destProvider, destBucket, reportFile, results.length,
    succeeded.count true, skipped.count true, succeeded.count false⟩

/-- `e["timestamp"] or ""` -/
def CopyEntry.sortKey (e : CopyEntry) : Str :=
  match e.timestamp with
  | .str s => s
  | _ => []

def isAuditFile (name : Str) : Bool := ".json".toList.isSuffixOf name

/-- The files that can be read, those of other names or of no document left out. -/
def readAudits (names : List Str) (contents : Str → Option Str) : List (Str × Json) :=
  (names.filter isAuditFile).filterMap fun name ↦
    ((contents name).bind Json.loads).map fun record ↦ (name, record)

/-- `contents` says what the file of a name holds when it is opened. -/
def listCopies (names : List Str) (contents : Str → Option Str) :
    Except LoadError (List CopyEntry) := do
  let entries ← (readAudits names contents).mapM fun p ↦ copyEntry p.1 p.2
  return entries.insertionSort fun e e' ↦ e'.sortKey ≤ e.sortKey

/-- `os.path.basename` -/
def basename (name : Str) : Str := name.rtakeWhile (· != '/')

structure CopiedObject where
  bucket : Json
  key : Json
  destBucket : Json

structure CopyData where
  file : Str
  timestamp : Json
  sourceProvider : Json
  destProvider : Json
  destBucket : Json
  reportFile : Json
  succeeded : List CopiedObject
  failed : List Json

def copiedObject (r : Json) : Except LoadError CopiedObject := do
  let bucket ← r.item "bucket".toList
  let key ← r.item "key".toList
  let destBucket ← r.dictGet "destBucket".toList
  return ⟨bucket, key, destBucket⟩

/-- The results whose flag is as asked for. -/
def filterFlag (flag : Bool) : List Json → Except LoadError (List Json)
  | [] => return []
  | r :: results => do
      let success ← resultFlag "success".toList r
      let rest ← filterFlag flag results
      return if success = flag then r :: rest else rest

def copyData (filename : Str) (record : Json) : Except LoadError CopyData := do
  let results ← auditResults record
  let succeeded ← (← filterFlag true results).mapM copiedObject
  let failed ← filterFlag false results
  let timestamp ← record.dictGet "timestamp".toList
  let sourceProvider ← record.dictGet "sourceProvider".toList
  let destProvider ← record.dictGet "destProvider".toList
  let destBucket ← record.dictGet "destBucket".toList
  let reportFile ← record.dictGet "reportFile".toList
  return ⟨filename, timestamp, sourceProvider, destProvider, destBucket, reportFile, succeeded,
    failed⟩

/-- The file is looked for by `_safe_audit_path` and then opened; `describe` is what an
exception prints as. -/
def getCopy (describe : LoadError → Str) (atTest atOpen : Str → Option Str) (filename : Str) :
    Except RouteError CopyData :=
  if filename ≠ basename filename ∨ isAuditFile filename = false then
    .error (.http 400 "Invalid audit file name".toList)
  else
    match readJson (atTest filename) (atOpen filename) with
    | .ok none => .error (.http 404 "Audit file not found".toList)
    | .error e => .error (.http 500 ("Could not read audit file: ".toList ++ describe e))
    | .ok (some record) => (copyData filename record).mapError .uncaught

/-! ## What a finished audit says -/

namespace CopyAudit

variable (audit : CopyAudit σ) (name : Str)

def entry : CopyEntry where
  file := name
  timestamp := .str (isoformat audit.timestamp)
  sourceProvider := .str audit.body.sourceProvider
  destProvider := .str audit.body.destProvider
  destBucket := optionText audit.body.destBucket
  reportFile := optionText audit.reportFile
  itemCount := audit.results.length
  succeededCount := audit.results.countP CopyResult.success
  skippedCount := audit.results.countP CopyResult.skipped
  failedCount := audit.results.countP fun r ↦ !r.success

def data : CopyData where
  file := name
  timestamp := .str (isoformat audit.timestamp)
  sourceProvider := .str audit.body.sourceProvider
  destProvider := .str audit.body.destProvider
  destBucket := optionText audit.body.destBucket
  reportFile := optionText audit.reportFile
  succeeded := (audit.results.filter CopyResult.success).map fun r ↦
    ⟨.str r.bucket, .str r.key, .str r.destBucket⟩
  failed := (audit.results.filter fun r ↦ !r.success).map copyResultToDict

end CopyAudit

theorem Json.dictGet_self (name : Str) (v : Json) (members : List (Str × Json)) :
    (Json.obj ((name, v) :: members)).dictGet name = .ok v := by
  rw [Json.dictGet, Json.get?_self]
  rfl

theorem Json.dictGet_of_ne {name other : Str} (h : other ≠ name) (v : Json)
    (members : List (Str × Json)) :
    (Json.obj ((other, v) :: members)).dictGet name = (Json.obj members).dictGet name := by
  rw [Json.dictGet, Json.dictGet, Json.get?_of_ne h]

theorem resultFlag_success (r : CopyResult) :
    resultFlag "success".toList (copyResultToDict r) = .ok r.success := by
  rw [resultFlag, copyResultToDict, Json.dictGet_of_ne (by decide), Json.dictGet_of_ne (by decide),
    Json.dictGet_of_ne (by decide), Json.dictGet_of_ne (by decide), Json.dictGet_self]
  rfl

theorem resultFlag_skipped (r : CopyResult) :
    resultFlag "skipped".toList (copyResultToDict r) = .ok r.skipped := by
  rw [resultFlag, copyResultToDict, Json.dictGet_of_ne (by decide), Json.dictGet_of_ne (by decide),
    Json.dictGet_of_ne (by decide), Json.dictGet_of_ne (by decide),
    Json.dictGet_of_ne (by decide), Json.dictGet_self]
  rfl

theorem copiedObject_toDict (r : CopyResult) :
    copiedObject (copyResultToDict r) = .ok ⟨.str r.bucket, .str r.key, .str r.destBucket⟩ := by
  rw [copiedObject, copyResultToDict, Json.item_self, Json.item_of_ne (by decide), Json.item_self,
    Json.dictGet_of_ne (by decide), Json.dictGet_of_ne (by decide), Json.dictGet_self]
  rfl

theorem filterFlag_toDict (flag : Bool) (results : List CopyResult) :
    filterFlag flag (results.map copyResultToDict) =
      .ok ((results.filter fun r ↦ r.success == flag).map copyResultToDict) := by
  induction results with
  | nil => rfl
  | cons r results ih =>
      rw [List.map_cons, filterFlag, resultFlag_success, ih]
      by_cases hflag : r.success = flag
      · simp [hflag, bind, Except.bind, pure, Except.pure]
      · simp [hflag, bind, Except.bind, pure, Except.pure]

section Read

variable (audit : CopyAudit σ) (name : Str)

/-- The fields of an audit's document. -/
theorem CopyAudit.dictGet_json :
    audit.json.dictGet "timestamp".toList = .ok (.str (isoformat audit.timestamp)) ∧
    audit.json.dictGet "sourceProvider".toList = .ok (.str audit.body.sourceProvider) ∧
    audit.json.dictGet "destProvider".toList = .ok (.str audit.body.destProvider) ∧
    audit.json.dictGet "destBucket".toList = .ok (optionText audit.body.destBucket) ∧
    audit.json.dictGet "reportFile".toList = .ok (optionText audit.reportFile) ∧
    audit.json.dictGet "results".toList = .ok (.arr (audit.results.map copyResultToDict)) := by
  unfold CopyAudit.json
  refine ⟨?_, ?_, ?_, ?_, ?_, ?_⟩
  · rw [Json.dictGet_self]
  · rw [Json.dictGet_of_ne (by decide), Json.dictGet_self]
  · rw [Json.dictGet_of_ne (by decide), Json.dictGet_of_ne (by decide), Json.dictGet_self]
  · rw [Json.dictGet_of_ne (by decide), Json.dictGet_of_ne (by decide),
      Json.dictGet_of_ne (by decide), Json.dictGet_self]
  · rw [Json.dictGet_of_ne (by decide), Json.dictGet_of_ne (by decide),
      Json.dictGet_of_ne (by decide), Json.dictGet_of_ne (by decide), Json.dictGet_self]
  · rw [Json.dictGet_of_ne (by decide), Json.dictGet_of_ne (by decide),
      Json.dictGet_of_ne (by decide), Json.dictGet_of_ne (by decide),
      Json.dictGet_of_ne (by decide), Json.dictGet_of_ne (by decide), Json.dictGet_self]

theorem auditResults_json : auditResults audit.json = .ok (audit.results.map copyResultToDict) := by
  obtain ⟨_, _, _, _, _, hresults⟩ := audit.dictGet_json
  rw [auditResults, hresults]
  rfl

theorem copyEntry_json : copyEntry name audit.json = .ok (audit.entry name) := by
  obtain ⟨htimestamp, hsource, hdest, hbucket, hreport, _⟩ := audit.dictGet_json
  have hsuccess : (audit.results.map copyResultToDict).mapM (resultFlag "success".toList) =
      .ok (audit.results.map CopyResult.success) :=
    Fallible.mapM_map_eq fun r _ ↦ resultFlag_success r
  have hskipped : (audit.results.map copyResultToDict).mapM (resultFlag "skipped".toList) =
      .ok (audit.results.map CopyResult.skipped) :=
    Fallible.mapM_map_eq fun r _ ↦ resultFlag_skipped r
  rw [copyEntry, auditResults_json, htimestamp, hsource, hdest, hbucket, hreport]
  simp only [bind, Except.bind, pure, Except.pure, hsuccess, hskipped, CopyAudit.entry,
    List.length_map, List.count, List.countP_map, Function.comp_def, beq_true, beq_false]

theorem copyData_json : copyData name audit.json = .ok (audit.data name) := by
  obtain ⟨htimestamp, hsource, hdest, hbucket, hreport, _⟩ := audit.dictGet_json
  have hcopied : ∀ results : List CopyResult,
      (results.map copyResultToDict).mapM copiedObject = .ok (results.map fun r ↦
        (⟨.str r.bucket, .str r.key, .str r.destBucket⟩ : CopiedObject)) := fun _ ↦
    Fallible.mapM_map_eq fun r _ ↦ copiedObject_toDict r
  rw [copyData, auditResults_json, htimestamp, hsource, hdest, hbucket, hreport]
  simp only [bind, Except.bind, pure, Except.pure, filterFlag_toDict, hcopied, CopyAudit.data,
    beq_true, beq_false]

end Read

/-! ## Texts of audits -/

theorem cellToJson_distinct {c : Cell} {v : Json} (h : cellToJson c = some v) : v.Distinct := by
  cases c with
  | blank =>
      obtain rfl : Json.null = v := Option.some.inj h
      trivial
  | text s =>
      obtain rfl : Json.str s = v := Option.some.inj h
      trivial
  | number printed isZero =>
      rw [cellToJson] at h
      split_ifs at h
      obtain rfl := Option.some.inj h
      trivial

theorem copyItemToDict_distinct {item : CopyItem} {v : Json} (h : copyItemToDict item = some v) :
    v.Distinct := by
  obtain ⟨sizeMb, hsize, h⟩ := Option.bind_eq_some_iff.mp h
  obtain ⟨rowId, hrow, h⟩ := Option.bind_eq_some_iff.mp h
  obtain rfl := Option.some.inj h
  exact ⟨by simp only [List.map_cons, List.map_nil]; decide, trivial, trivial,
    cellToJson_distinct hsize, optionText_distinct _, optionText_distinct _,
    optionText_distinct _, cellToJson_distinct hrow, trivial⟩

theorem copyResultToDict_distinct (r : CopyResult) : (copyResultToDict r).Distinct :=
  ⟨by simp only [List.map_cons, List.map_nil]; decide, trivial, trivial, trivial, trivial, trivial,
    trivial, optionText_distinct _, trivial⟩

theorem CopyAudit.json_distinct (audit : CopyAudit σ) : audit.json.Distinct := by
  refine ⟨by simp only [List.map_cons, List.map_nil]; decide, trivial, trivial, trivial,
    optionText_distinct _, optionText_distinct _, ?_, ?_, trivial⟩
  · apply distinctElements_of_forall
    intro v hv
    obtain ⟨item, _, hitem⟩ := (Fallible.mem_of_mapM_eq_some audit.dumped).mp hv
    exact copyItemToDict_distinct hitem
  · apply distinctElements_of_forall
    intro v hv
    obtain ⟨r, _, rfl⟩ := List.mem_map.mp hv
    exact copyResultToDict_distinct r

/-- A front part of an audit's text is a document only if it is the whole of it. -/
theorem CopyAudit.loads_front {audit : CopyAudit σ} {s : Str} (h : s <+: audit.text) :
    s = audit.text ∧ Json.loads s = some audit.json ∨ Json.loads s = none := by
  obtain ⟨more, hmore⟩ := h
  by_cases hnil : more = []
  · rw [hnil, List.append_nil] at hmore
    rw [hmore]
    exact .inl ⟨rfl, Json.loads_write .indented audit.json_distinct⟩
  · exact .inr (Json.loads_front .indented audit.json_distinct hmore.symm hnil)

theorem CopyAudit.loads_text (audit : CopyAudit σ) : Json.loads audit.text = some audit.json :=
  Json.loads_write .indented audit.json_distinct

theorem isAuditFile_auditName (stamp hex : Str) : isAuditFile (auditName stamp hex) = true := by
  rw [isAuditFile, List.isSuffixOf_iff_suffix]
  exact ⟨stamp ++ '-' :: hex, by rw [auditName, List.append_assoc, List.cons_append]⟩

theorem basename_eq_self_iff (name : Str) : basename name = name ↔ '/' ∉ name := by
  rw [basename, List.rtakeWhile_eq_self_iff]
  constructor
  · intro hall hslash
    exact absurd (hall '/' hslash) (by decide)
  · intro hslash c hc
    exact bne_iff_ne.mpr fun heq ↦ hslash (heq ▸ hc)

/-- The name of an audit file is accepted. -/
theorem basename_auditName {stamp hex : Str} (hstamp : '/' ∉ stamp) (hhex : '/' ∉ hex) :
    basename (auditName stamp hex) = auditName stamp hex := by
  rw [basename_eq_self_iff, auditName]
  intro hslash
  rcases List.mem_append.mp hslash with hslash | hslash
  · exact hstamp hslash
  · rcases List.mem_append.mp ((List.mem_cons.mp hslash).resolve_left (by decide)) with
      hslash | hslash
    · exact hhex hslash
    · exact absurd hslash (by decide)

/-! ## What may be deleted -/

/-- Nothing has changed but that sources of what is listed as copied may be gone. -/
def OnlyListedDeleted (store : Str → σ) (data : CopyData) (after final : Objects σ) : Prop :=
  ∀ l, final l ≠ after l → ∃ provider bucket key destBucket,
    data.sourceProvider = .str provider ∧ ⟨.str bucket, .str key, destBucket⟩ ∈ data.succeeded ∧
    l = ⟨store provider, bucket, key⟩

/-- Whatever is listed as copied is at its destination, unless an object from before was kept
there; and it stays there when the listed sources are deleted. -/
def CopyAudit.KeepsCopied (store : Str → σ) (audit : CopyAudit σ) (data : CopyData) : Prop :=
  ∀ copied ∈ data.succeeded, ∃ (i : ℕ) (item : CopyItem) (result : CopyResult),
    audit.body.items[i]? = some item ∧ audit.results[i]? = some result ∧
    copied = ⟨.str item.bucket, .str item.key, .str result.destBucket⟩ ∧
    ((copyCallOf store audit.body).Alone (item.bucket, item.key) →
      (copyCallOf store audit.body).Survives audit.before audit.after (item.bucket, item.key)
        result ∧
      ∀ final, OnlyListedDeleted store data audit.after final →
        final ⟨store audit.body.destProvider, result.destBucket, result.destKey⟩ =
          audit.after ⟨store audit.body.destProvider, result.destBucket, result.destKey⟩)

theorem exists_destBucket {body : CopyBody} (hvalid : validateCopyBody body = .ok ())
    (hsame : body.sourceProvider = body.destProvider) :
    ∃ c s, body.destBucket = some (c :: s) ∧ ∀ item ∈ body.items, item.bucket ≠ c :: s := by
  by_cases hitems : body.items.length = 0
  · simp [validateCopyBody, hitems, throw, throwThe, MonadExceptOf.throw, bind,
      Except.bind] at hvalid
  by_cases hunset : isUnset body.destBucket = true
  · simp [validateCopyBody, hitems, hsame, hunset, throw, throwThe, MonadExceptOf.throw, bind,
      Except.bind] at hvalid
  by_cases hany : (body.items.any fun item ↦ decide (some item.bucket = body.destBucket)) = true
  · simp only [validateCopyBody, hitems, hsame, hunset, hany, if_true, if_false, throw, throwThe,
      MonadExceptOf.throw, bind, Except.bind, pure, Except.pure] at hvalid
    cases hvalid
  cases hdest : body.destBucket with
  | none => exact absurd (by rw [hdest]; rfl) hunset
  | some dest =>
      cases dest with
      | nil => exact absurd (by rw [hdest]; rfl) hunset
      | cons c s =>
          refine ⟨c, s, rfl, fun item hitem heq ↦ hany ?_⟩
          exact List.any_eq_true.mpr ⟨item, hitem, by rw [hdest, heq]; exact decide_eq_true rfl⟩

/-- An accepted request copies nothing to a place that it copies from. -/
theorem destOf_ne_sourceOf {store : Str → σ} (hstore : Function.Injective store) {body : CopyBody}
    (hvalid : validateCopyBody body = .ok ()) (item : Str × Str) {item' : CopyItem}
    (hitem : item' ∈ body.items) :
    (copyCallOf store body).destOf item ≠
      ⟨store body.sourceProvider, item'.bucket, item'.key⟩ := by
  intro heq
  obtain ⟨hproviders, hbuckets, _⟩ := Location.mk.inj heq
  obtain ⟨c, s, hdest, hother⟩ := exists_destBucket hvalid (hstore hproviders).symm
  apply hother item' hitem
  rw [← hbuckets, CopyCall.resolveDestBucket, copyCallOf, hdest]

variable [DecidableEq σ] {store : Str → σ}

/-- Every result of an audit is that of its item. -/
theorem CopyAudit.Fits.exists_item {name : Str} {audit : CopyAudit σ} {i : ℕ} {result : CopyResult}
    (h : audit.Fits store name) (hresult : audit.results[i]? = some result) :
    ∃ item : CopyItem, audit.body.items[i]? = some item ∧
      (copyCallOf store audit.body).items[i]? = some (item.bucket, item.key) ∧
      ∃ success skipped error, result =
        (copyCallOf store audit.body).outcome (item.bucket, item.key) success skipped error := by
  obtain ⟨bucketErrors, hcopies⟩ := h.copied
  have hlength := hcopies.1
  have hlt := (List.getElem?_eq_some_iff.mp hresult).1
  dsimp only [copyCallOf] at hlength
  rw [List.length_map] at hlength
  obtain ⟨item, hitem⟩ : ∃ item, audit.body.items[i]? = some item :=
    ⟨_, List.getElem?_eq_getElem (hlength ▸ hlt)⟩
  have hcall : (copyCallOf store audit.body).items[i]? = some (item.bucket, item.key) := by
    dsimp only [copyCallOf]
    rw [List.getElem?_map, hitem]
    rfl
  exact ⟨item, hitem, hcall, hcopies.result_eq hcall hresult⟩

theorem CopyAudit.Fits.keepsCopied {name : Str} {audit : CopyAudit σ}
    (hstore : Function.Injective store) (h : audit.Fits store name) :
    audit.KeepsCopied store (audit.data name) := by
  intro copied hcopied
  obtain ⟨result, hresult, rfl⟩ := List.mem_map.mp hcopied
  obtain ⟨hmem, hsuccess⟩ := List.mem_filter.mp hresult
  obtain ⟨i, hi⟩ := List.getElem?_of_mem hmem
  obtain ⟨item, hitem, hcall, _, _, _, rfl⟩ := h.exists_item hi
  obtain ⟨bucketErrors, hcopies⟩ := h.copied
  refine ⟨i, item, _, hitem, hi, rfl, fun halone ↦ ⟨?_, ?_⟩⟩
  · exact hcopies.survives hcall hi (fun _ _ ↦ copyCallOf_destOf_eq) halone hsuccess
  · intro final hfinal
    by_contra hchanged
    obtain ⟨provider, bucket, key, destBucket, hprovider, hlisted, hplace⟩ := hfinal _ hchanged
    obtain rfl : audit.body.sourceProvider = provider := Json.str.inj hprovider
    obtain ⟨listed, hlisted, hsource⟩ := List.mem_map.mp hlisted
    obtain ⟨j, hj⟩ := List.getElem?_of_mem (List.mem_filter.mp hlisted).1
    obtain ⟨item', hitem', _, _, _, _, rfl⟩ := h.exists_item hj
    obtain ⟨hbucket, hkey, _⟩ := CopiedObject.mk.inj hsource
    obtain rfl : item'.bucket = bucket := Json.str.inj hbucket
    obtain rfl : item'.key = key := Json.str.inj hkey
    exact destOf_ne_sourceOf hstore h.accepted _ (List.mem_of_getElem? hitem') hplace

/-! ## Reading while audits are written -/

section Reading

variable {h h' : CopyHistory σ}

theorem CopyHistory.sound (hrun : Relation.ReflTransGen (CopyHistory.Step store) .empty h) :
    h.Sound CopyAudit.text (CopyAudit.Fits store) :=
  Folder.sound_of_run hrun (Folder.sound_empty _ _)

/-- A file is refused, missing, not read, or that of an audit that was written whole. -/
theorem getCopy_cases (describe : LoadError → Str)
    (hsound : h.Sound CopyAudit.text (CopyAudit.Fits store))
    (hsound' : h'.Sound CopyAudit.text (CopyAudit.Fits store)) (hgrows : Folder.Grows h h')
    (filename : Str) :
    (∃ status detail, getCopy describe h.files h'.files filename = .error (.http status detail)) ∨
      ∃ audit, (filename, audit) ∈ h.begun ∧ h'.files filename = some audit.text ∧
        getCopy describe h.files h'.files filename = .ok (audit.data filename) := by
  rw [getCopy]
  split_ifs with hname
  · exact .inl ⟨_, _, rfl⟩
  · cases hfile : h.files filename with
    | none => exact .inl ⟨_, _, rfl⟩
    | some s =>
        obtain ⟨audit, s', hbegun, hs', hfront⟩ := hsound.front_of_grows hsound' hgrows hfile
        rw [hs', readJson]
        rcases CopyAudit.loads_front hfront with ⟨rfl, hloads⟩ | hloads
        · refine .inr ⟨audit, hbegun, rfl, ?_⟩
          rw [hloads]
          dsimp only
          rw [copyData_json]
          rfl
        · rw [hloads]
          exact .inl ⟨_, _, rfl⟩

theorem getCopy_of_whole (describe : LoadError → Str)
    (hsound : h.Sound CopyAudit.text (CopyAudit.Fits store))
    (hsound' : h'.Sound CopyAudit.text (CopyAudit.Fits store)) (hgrows : Folder.Grows h h')
    {name : Str} {audit : CopyAudit σ} (hbegun : (name, audit) ∈ h.begun)
    (hwhole : h.files name = some audit.text) :
    getCopy describe h.files h'.files name = .ok (audit.data name) := by
  obtain ⟨⟨stamp, hex, hstamp, hhex, hname⟩, _, _⟩ := hsound.fits name audit hbegun
  have haccepted : ¬(name ≠ basename name ∨ isAuditFile name = false) := by
    rw [hname, basename_auditName hstamp hhex, isAuditFile_auditName]
    simp
  rw [getCopy, if_neg haccepted, hwhole, hsound'.whole_of_grows hgrows hbegun hwhole, readJson,
    audit.loads_text]
  dsimp only
  rw [copyData_json]
  rfl

/-- The audits whose files are opened when they have been written whole. -/
theorem exists_readAudits (hsound : h.Sound CopyAudit.text (CopyAudit.Fits store))
    {contents : Str → Option Str} {names : List Str}
    (hread : ∀ name ∈ names, ∃ audit s, (name, audit) ∈ h.begun ∧ contents name = some s ∧
      s <+: audit.text) :
    ∃ listed : List (Str × CopyAudit σ),
      readAudits names contents = listed.map (fun p ↦ (p.1, p.2.json)) ∧
      (listed.map Prod.fst).Sublist names ∧ (∀ p ∈ listed, p ∈ h.begun) ∧
      ∀ p ∈ h.begun, p.1 ∈ names → contents p.1 = some p.2.text → p ∈ listed := by
  induction names with
  | nil =>
      exact ⟨[], rfl, .refl _, fun _ hp ↦ absurd hp List.not_mem_nil,
        fun _ _ hp ↦ absurd hp List.not_mem_nil⟩
  | cons name names ih =>
      obtain ⟨listed, hreads, hsub, hbegun, hwhole⟩ := ih fun name' hname' ↦
        hread name' (List.mem_cons_of_mem name hname')
      obtain ⟨audit, s, haudit, hs, hfront⟩ := hread name List.mem_cons_self
      have hfile : isAuditFile name = true := by
        obtain ⟨⟨stamp, hex, _, _, hname⟩, _, _⟩ := hsound.fits name audit haudit
        rw [hname]
        exact isAuditFile_auditName stamp hex
      have hother : ∀ p ∈ h.begun, p.1 ∈ name :: names → contents p.1 = some p.2.text →
          p ∈ listed ∨ p = (name, audit) ∧ s = audit.text := by
        rintro ⟨name', audit'⟩ hp hmem hcontents
        rcases List.mem_cons.mp hmem with heq | hmem
        · obtain rfl : name' = name := heq
          obtain rfl := hsound.once _ _ _ hp haudit
          exact .inr ⟨rfl, Option.some.inj (hs.symm.trans hcontents)⟩
        · exact .inl (hwhole _ hp hmem hcontents)
      rw [readAudits, List.filter_cons_of_pos hfile, List.filterMap_cons, hs, Option.bind_some]
      rcases CopyAudit.loads_front hfront with ⟨rfl, hloads⟩ | hloads
      · refine ⟨(name, audit) :: listed, ?_, hsub.cons_cons name, ?_, ?_⟩
        · rw [hloads, Option.map_some, List.map_cons, ← hreads]
          rfl
        · rintro p hp
          rcases List.mem_cons.mp hp with rfl | hp
          · exact haudit
          · exact hbegun p hp
        · intro p hp hmem hcontents
          rcases hother p hp hmem hcontents with hlisted | ⟨rfl, _⟩
          · exact List.mem_cons_of_mem _ hlisted
          · exact List.mem_cons_self
      · refine ⟨listed, ?_, hsub.cons name, hbegun, fun p hp hmem hcontents ↦ ?_⟩
        · rw [hloads]
          exact hreads
        · rcases hother p hp hmem hcontents with hlisted | ⟨_, rfl⟩
          · exact hlisted
          · exact absurd (audit.loads_text.symm.trans hloads) (Option.some_ne_none _)

/-- Audits that have been begun, newest first and each once, with all that had been
written whole. -/
structure ListsAudits (h : CopyHistory σ) (listed : List (Str × CopyAudit σ)) : Prop where
  begun : ∀ p ∈ listed, p ∈ h.begun
  whole : ∀ p ∈ h.begun, h.files p.1 = some p.2.text → p ∈ listed
  once : (listed.map Prod.fst).Nodup
  newest : listed.Pairwise fun p q ↦ q.2.timestamp ≤ p.2.timestamp

/-- Each file is opened at some moment after its name was listed. -/
theorem listCopies_eq (hsound : h.Sound CopyAudit.text (CopyAudit.Fits store))
    {names : List Str} {contents : Str → Option Str} (hnodup : names.Nodup)
    (hnames : ∀ name, name ∈ names ↔ h.files name ≠ none)
    (hcontents : ∀ name ∈ names, ∃ mid, Relation.ReflTransGen (CopyHistory.Step store) h mid ∧
      contents name = mid.files name) :
    ∃ listed, ListsAudits h listed ∧
      listCopies names contents = .ok (listed.map fun p ↦ p.2.entry p.1) := by
  have hread : ∀ name ∈ names, ∃ audit s, (name, audit) ∈ h.begun ∧ contents name = some s ∧
      s <+: audit.text := by
    intro name hname
    obtain ⟨mid, hmid, hopen⟩ := hcontents name hname
    obtain ⟨s, hs⟩ := Option.ne_none_iff_exists'.mp ((hnames name).mp hname)
    obtain ⟨audit, s', hbegun, hs', hfront⟩ := hsound.front_of_grows
      (Folder.sound_of_run hmid hsound) (Folder.grows_of_run hmid) hs
    exact ⟨audit, s', hbegun, hopen.trans hs', hfront⟩
  obtain ⟨listed, hreads, hsub, hbegun, hwhole⟩ := exists_readAudits hsound hread
  let newer : Str × CopyAudit σ → Str × CopyAudit σ → Prop := fun p q ↦
    q.2.timestamp ≤ p.2.timestamp
  have htotal : Std.Total newer := ⟨fun p q ↦ Nat.le_total q.2.timestamp p.2.timestamp⟩
  have htrans : IsTrans _ newer := ⟨fun p q r hpq hqr ↦ Nat.le_trans hqr hpq⟩
  refine ⟨listed.insertionSort newer, ⟨?_, ?_, ?_, List.pairwise_insertionSort newer listed⟩, ?_⟩
  · intro p hp
    exact hbegun p ((List.mem_insertionSort newer).mp hp)
  · intro p hp hfile
    have hname : p.1 ∈ names := (hnames p.1).mpr (hfile ▸ Option.some_ne_none _)
    obtain ⟨mid, hmid, hopen⟩ := hcontents p.1 hname
    apply (List.mem_insertionSort newer).mpr
    apply hwhole p hp hname
    exact hopen.trans ((Folder.sound_of_run hmid hsound).whole_of_grows
      (Folder.grows_of_run hmid) hp hfile)
  · exact ((List.perm_insertionSort newer listed).map Prod.fst).nodup_iff.mpr (hsub.nodup hnodup)
  · have hentries : (listed.map fun p ↦ (p.1, p.2.json)).mapM (fun p ↦ copyEntry p.1 p.2) =
        .ok (listed.map fun p ↦ p.2.entry p.1) :=
      Fallible.mapM_map_eq fun p _ ↦ copyEntry_json p.2 p.1
    have hsorted := List.map_insertionSort newer
      (fun e e' : CopyEntry ↦ e'.sortKey ≤ e.sortKey) (fun p ↦ p.2.entry p.1) listed
      fun p _ q _ ↦ (isoformat_le_iff q.2.isMoment p.2.isMoment).symm
    rw [listCopies, hreads, hentries, hsorted]
    rfl

/-- While copies end and their audits are being written: reading an audit back never
shows a part of it or fails otherwise than with an answer, and shows each that has been
written whole, whose sources may be deleted; and listing shows whole audits only, newest
first, and all that were there. -/
theorem copyHistory_tells (hstore : Function.Injective store)
    (hrun : Relation.ReflTransGen (CopyHistory.Step store) .empty h)
    (hlater : Relation.ReflTransGen (CopyHistory.Step store) h h')
    (describe : LoadError → Str) :
    (∀ filename,
      (∃ status detail,
        getCopy describe h.files h'.files filename = .error (.http status detail)) ∨
      ∃ audit, (filename, audit) ∈ h.begun ∧ h'.files filename = some audit.text ∧
        getCopy describe h.files h'.files filename = .ok (audit.data filename)) ∧
    (∀ name audit, (name, audit) ∈ h.begun →
      audit.KeepsCopied store (audit.data name) ∧
      (h.files name = some audit.text →
        getCopy describe h.files h'.files name = .ok (audit.data name))) ∧
    ∀ names contents, names.Nodup → (∀ name, name ∈ names ↔ h.files name ≠ none) →
      (∀ name ∈ names, ∃ mid, Relation.ReflTransGen (CopyHistory.Step store) h mid ∧
        contents name = mid.files name) →
      ∃ listed, ListsAudits h listed ∧
        listCopies names contents = .ok (listed.map fun p ↦ p.2.entry p.1) := by
  have hsound := CopyHistory.sound hrun
  have hsound' := Folder.sound_of_run hlater hsound
  have hgrows := Folder.grows_of_run hlater
  refine ⟨?_, fun name audit hbegun ↦ ⟨?_, ?_⟩, ?_⟩
  · exact getCopy_cases describe hsound hsound' hgrows
  · exact (hsound.fits name audit hbegun).keepsCopied hstore
  · exact getCopy_of_whole describe hsound hsound' hgrows hbegun
  · intro names contents hnodup hnames hcontents
    exact listCopies_eq hsound hnodup hnames hcontents

end Reading

/-! ## The audit of one photo -/

def photoAudit : CopyAudit Str where
  timestamp := (Fields.mk 2026 3 1 9 30 0 0).number
  isMoment := ⟨_, by decide, rfl⟩
  body := photoBody
  requested := [.obj [("bucket".toList, .str "scola".toList), ("key".toList, .str "a.png".toList),
    ("sizeMb".toList, .null), ("path".toList, .null), ("table".toList, .null),
    ("column".toList, .null), ("rowId".toList, .null)]]
  dumped := rfl
  results := [photoResult false]
  reportFile := none
  before := photoObjects none
  after := Function.update (photoObjects none) (photoLocation "wasabi".toList)
    (some (photoObject [1]))

def photoAuditName : Str := auditName "20260301T093000".toList "0a1b2c3d".toList

theorem photoAudit_fits : photoAudit.Fits id photoAuditName :=
  ⟨⟨_, _, by decide, by decide, rfl⟩, by decide, _, photoCall_copiesTo⟩

/-- The audit has been written. -/
def photoHistory : CopyHistory Str where
  files := Function.update (Function.update (fun _ ↦ none) photoAuditName (some []))
    photoAuditName (some ([] ++ photoAudit.text))
  begun := [(photoAuditName, photoAudit)]

theorem photoHistory_run : Relation.ReflTransGen (CopyHistory.Step id) .empty photoHistory := by
  apply Relation.ReflTransGen.tail (.single (.create rfl photoAudit_fits))
  apply Folder.Step.append List.mem_cons_self
  · dsimp only
    rw [Function.update_self]
  · exact List.prefix_refl _

theorem copyHistory_tells_photo :
    photoAudit.KeepsCopied id (photoAudit.data photoAuditName) ∧
      getCopy (fun _ ↦ []) photoHistory.files photoHistory.files photoAuditName =
        .ok (photoAudit.data photoAuditName) := by
  obtain ⟨_, htells, _⟩ := copyHistory_tells Function.injective_id photoHistory_run .refl
    fun _ ↦ []
  obtain ⟨hkeeps, hread⟩ := htells photoAuditName photoAudit List.mem_cons_self
  refine ⟨hkeeps, hread ?_⟩
  simp only [photoHistory, Function.update_self, List.nil_append]

end StorageReconciler
