import StorageReconciler.ArchiveRuns
import StorageReconciler.DeletableReport
import StorageReconciler.RestoreFromArchive

/-!
# Links to archived objects

The archive key of an object names its bucket and its key.  A signed link to the
archive copy, pasted, or the listing of the archive bucket, read back, give the
archive key again, and restoring it leads to where the object was.
-/

namespace StorageReconciler

open Strings UrlSplit PercentCoding

/-! ## Pasted links -/

structure ArchiveRef where
  bucket : Str
  key : Str
  path : Str
  deriving DecidableEq

structure ArchiveRefError where
  line : Str
  reason : Str
  deriving DecidableEq

structure ArchiveRefs where
  rows : List ArchiveRef
  errors : List ArchiveRefError
  deriving DecidableEq

/-- Bucket and key of a line; where no provider is recognised, the first segment of a
path is the bucket. -/
def pastedLocation (T : Tables) (env : Env) (line : Str) : Str × Str :=
  let r := splitObjectReference T env line
  if r.bucket.getD [] = [] ∧ r.key.contains '/' then partition '/' r.key
  else (r.bucket.getD [], r.key)

def parseArchiveLine (T : Tables) (env : Env) (refs : ArchiveRefs) (rawLine : Str) :
    ArchiveRefs :=
  let line := strip rawLine
  if line = [] then refs
  else
    let (bucket, key) := pastedLocation T env line
    if bucket = [] then
      { refs with errors := refs.errors ++ [⟨line, ("Could not determine the archive bucket — " ++
          "paste a full URL or \"bucket/key\" path").toList⟩] }
    else if !key.contains '/' then
      { refs with errors := refs.errors ++ [⟨line, "No \"/\" left in \"".toList ++ key ++
          "\" after the archive bucket — nothing to restore to".toList⟩] }
    else { refs with rows := refs.rows ++ [⟨bucket, key, line⟩] }

def parseArchiveRefs (T : Tables) (env : Env) (lines : List Str) : ArchiveRefs :=
  lines.foldl (parseArchiveLine T env) ⟨[], []⟩

/-! ## The listing of a bucket -/

def bucketObjectsHeaders : List Str :=
  ["Key", "Size (MB)", "Last Modified", "URL"].map String.toList

def bucketObjectRow (formats : Formats) (url : Str) (obj : StorageObject) : List Cell :=
  [.text obj.key, formats.mb obj.size, formats.naive obj.lastModified, .text url]

/-- `formatBytes` writes the total size. -/
def bucketObjectsSummary (formatBytes : ℕ → Str) (bucket : Str) (objects : List StorageObject) :
    List (List Cell) :=
  [[.text "Metric".toList, .text "Value".toList],
    [.text "Bucket".toList, .text bucket],
    [.text "Object Count".toList,
      .number (Nat.repr objects.length).toList (decide (objects.length = 0))],
    [.text "Total Size".toList, .text (formatBytes (objects.map StorageObject.size).sum)]]

def generateBucketObjectsReport (T : Tables) (env : Env) (query : Str → Str → Str)
    (formats : Formats) (formatBytes : ℕ → Str) (provider : Option Str) (bucket : Str)
    (objects : List StorageObject) : Except Str Workbook := do
  let rows ← objects.mapM fun obj ↦
    (buildObjectPresignedUrl T env query provider bucket obj.key).map fun url ↦
      bucketObjectRow formats url obj
  return [("Objects".toList, bucketObjectsHeaders.map .text :: rows),
    ("Summary".toList, bucketObjectsSummary formatBytes bucket objects)]

structure ReportedObject where
  key : Str
  sizeMb : Cell
  url : Cell
  deriving DecidableEq

/-- A row of the summary that names the bucket. -/
def isBucketRow (T : Tables) (row : List Cell) : Bool :=
  match row with
  | first :: _ :: _ => decide (lower T (strip first.printed) = "bucket".toList)
  | _ => false

def summaryBucket (T : Tables) (rows : List (List Cell)) : Str :=
  match rows.find? (isBucketRow T) with
  | some (_ :: .text s :: _) => strip s
  | some (_ :: .number printed _ :: _) => strip printed
  | _ => []

def parseBucketObjectRow (T : Tables) (header row : List Cell) : Option ReportedObject :=
  let key := cellValue T header row "key".toList
  if !key.truthy then none
  else some ⟨key.printed, cellValue T header row "size (mb)".toList,
    cellValue T header row "url".toList⟩

def sheetRows (workbook : Workbook) (name : Str) : Option (List (List Cell)) :=
  (workbook.find? fun s ↦ decide (s.1 = name)).map Prod.snd

def parseBucketObjectsReport (T : Tables) (workbook : Workbook) :
    Except Str (Str × List ReportedObject) :=
  match sheetRows workbook "Objects".toList with
  | none => .error ("No 'Objects' sheet found in the uploaded file — upload a report " ++
      "downloaded from \"List bucket objects\".").toList
  | some rows =>
      let bucket := summaryBucket T ((sheetRows workbook "Summary".toList).getD [])
      if bucket = [] then
        .error "Could not find the source bucket in the report's 'Summary' sheet".toList
      else
        match rows with
        | [] => .ok (bucket, [])
        | header :: rows =>
            if header = [] then .ok (bucket, [])
            else if (colIndex T header "key".toList).isNone then
              .error "'Objects' sheet is missing expected column: key".toList
            else .ok (bucket, rows.filterMap (parseBucketObjectRow T header))

structure RestorableObject where
  bucket : Str
  key : Str
  path : Cell
  sizeMb : Cell
  deriving DecidableEq

/-- The rows that can be restored; the others are reported as errors. -/
def parseBucketObjectsRoute (T : Tables) (workbook : Workbook) :
    Except Str (List RestorableObject × List ArchiveRefError) :=
  (parseBucketObjectsReport T workbook).map fun (bucket, reported) ↦
    ((reported.filter fun r ↦ r.key.contains '/').map fun r ↦ ⟨bucket, r.key, r.url, r.sizeMb⟩,
      (reported.filter fun r ↦ !r.key.contains '/').map fun r ↦
        ⟨r.key, "No \"/\" in \"".toList ++ r.key ++ "\" — nothing to restore to".toList⟩)

/-! ## The provider of the archive -/

section Provider

variable {env : Env} {config : S3ProviderConfig}

theorem fixed_not_recognises {p : S3ProviderConfig} {host : Str} (hp : p ∈ env.s3Providers)
    (hconfigured : env.IsConfigured) (hkey : p.key ≠ awsProviderHint)
    (hhost : amazonawsSuffix <:+ host) : p.recognises host = false := by
  by_contra hrec
  obtain ⟨e, hend, hbelow⟩ :=
    S3ProviderConfig.exists_of_recognises (Bool.not_eq_false _ ▸ hrec)
  obtain ⟨d, hd, hreads⟩ := hconfigured p hp
  have hfixed : ∃ f ∈ [wasabiEndpoint, sfo2Endpoint, sgp1Endpoint], p.endpoint = some f := by
    simp only [providerDefs, List.mem_cons, List.not_mem_nil, or_false] at hd
    rcases hd with rfl | rfl | rfl | rfl
    · exact absurd hreads.key hkey
    · exact ⟨wasabiEndpoint, by simp, hreads.endpoint _ rfl⟩
    · exact ⟨sfo2Endpoint, by simp, hreads.endpoint _ rfl⟩
    · exact ⟨sgp1Endpoint, by simp, hreads.endpoint _ rfl⟩
  obtain ⟨f, hf, hend'⟩ := hfixed
  obtain rfl := Option.some.inj (hend.symm.trans hend')
  have hapart : ∀ f ∈ [wasabiEndpoint, sfo2Endpoint, sgp1Endpoint],
      ¬ amazonawsSuffix <:+ f.hostLower ∧ ¬ amazonawsSuffix <:+ '.' :: f.hostLower ∧
        ¬ '.' :: f.hostLower <:+ amazonawsSuffix := by
    decide
  obtain ⟨hnot, hnot', hnot''⟩ := hapart e hf
  rcases hbelow with rfl | hbelow
  · exact hnot hhost
  · rcases List.suffix_or_suffix_of_suffix hbelow hhost with hsuf | hsuf
    · exact hnot'' hsuf
    · exact hnot' hsuf

theorem bucketHost_lowered_of_none (hend : config.endpoint = none) (bucket : Str) :
    amazonawsSuffix <:+ (config.bucketHost bucket).map Char.toLower := by
  unfold S3ProviderConfig.bucketHost
  rw [hend]
  simp only
  rw [List.map_append, List.map_cons, awsHost_lowered]
  refine ⟨bucket.map Char.toLower ++ '.'.toLower :: 's' :: '3' :: regionPart config.region, ?_⟩
  simp

/-- The links of a configured provider lead back to its buckets. -/
theorem recognised_of_isConfigured (hconfigured : env.IsConfigured) (hapart : HostsApart env)
    (hconfig : config ∈ env.s3Providers) {bucket : Str} (hne : bucket ≠ [])
    (hlower : bucket.map Char.toLower = bucket) :
    env.s3Providers.find? (·.recognises ((config.bucketHost bucket).map Char.toLower)) =
      if config.endpoint.isSome then some config else none := by
  cases hend : config.endpoint with
  | some e =>
      have hhost : (config.bucketHost bucket).map Char.toLower =
          if config.forcePathStyle then e.hostLower else bucket ++ '.' :: e.hostLower := by
        unfold S3ProviderConfig.bucketHost
        rw [hend]
        cases config.forcePathStyle with
        | true => rfl
        | false =>
            have hdot : '.'.toLower = '.' := by decide
            simp [Endpoint.hostLower, hlower, hdot]
      rw [hhost]
      cases hforce : config.forcePathStyle with
      | true =>
          have hrec := recognises_endpoint hend
          rw [if_pos rfl, hapart.find?_eq hconfig hend (.inl rfl), hrec, hforce]
          rfl
      | false =>
          have hrec := recognises_below_endpoint hend hne
          rw [if_neg Bool.false_ne_true,
            hapart.find?_eq hconfig hend (.inr (List.suffix_append _ _)), hrec, hforce]
          rfl
  | none =>
      have haws : config.key = awsProviderHint := env.endpoint_eq_none config hconfig hend
      rw [Option.isSome_none, if_neg Bool.false_ne_true, List.find?_eq_none]
      intro p hp
      rw [Bool.not_eq_true]
      by_cases hkey : p.key = awsProviderHint
      · obtain rfl := List.inj_on_of_nodup_map env.nodup hp hconfig (hkey.trans haws.symm)
        simp [S3ProviderConfig.recognises, hend]
      · exact fixed_not_recognises hp hconfigured hkey (bucketHost_lowered_of_none hend bucket)

theorem leadsBack_archiveBucket (hconfigured : env.IsConfigured) (hapart : HostsApart env)
    (hconfig : config ∈ env.s3Providers) : LeadsBack env config archiveBucketName where
  isBucketName := ⟨by decide, by decide⟩
  recognised := recognised_of_isConfigured hconfigured hapart hconfig (by decide) (by decide)
  lowered _ := by decide
  notDotted _ := by decide
  notLabel _ _ := by decide

end Provider

/-! ## Reading a link and a listing -/

/-- The signed link of the archive copy of an object. -/
def archiveLink (T : Tables) (env : Env) (query : Str → Str → Str) (providerKey : Option Str)
    (b k : Str) : Str :=
  signedUrl T env query providerKey archiveBucketName (archiveDestKey b k)

section Reading

variable {T : Tables} {env : Env} {query : Str → Str → Str} {providerKey : Option Str}
  {config : S3ProviderConfig} {b k : Str}

theorem head?_archiveDestKey (hne : b ≠ []) (hslash : '/' ∉ b) :
    (archiveDestKey b k).head? ≠ some '/' := by
  cases b with
  | nil => exact absurd rfl hne
  | cons c b =>
      rintro ⟨rfl⟩
      exact hslash List.mem_cons_self

theorem strip_archiveLink
    (hconfig : env.provider? (orElse providerKey env.s3DefaultProviderKey) = some config)
    (hquery : ∀ c ∈ query archiveBucketName (archiveDestKey b k), isSpace c = false) :
    strip (archiveLink T env query providerKey b k) = archiveLink T env query providerKey b k := by
  have hname : IsBucketName archiveBucketName := ⟨by decide, by decide⟩
  obtain ⟨scheme, hscheme, hurl⟩ := buildBucketUrl_eq T hconfig archiveBucketName
  have haddress : archiveLink T env query providerKey b k = scheme ++ ':' :: '/' :: '/' ::
      ((config.bucketHost archiveBucketName ++
        if config.bucketInPath then '/' :: archiveBucketName else []) ++
          '/' :: (quote (archiveDestKey b k) ++
            '?' :: query archiveBucketName (archiveDestKey b k))) := by
    rw [archiveLink, signedUrl, hurl]
    simp
  rw [haddress]
  apply strip_address hscheme
  intro c hc
  simp only [List.mem_append, List.mem_cons] at hc
  rcases hc with (hc | hc) | rfl | hc | hc
  · exact isHostChar_isSpace (config.isHostChar_bucketHost hname c hc)
  · split_ifs at hc
    · rcases List.mem_cons.mp hc with rfl | hc
      · decide
      · exact isHostChar_isSpace (hname.isHostChar c hc)
    · exact absurd hc List.not_mem_nil
  · decide
  · exact (quoted_mem (spells_quote (archiveDestKey b k)) hc).1
  · exact isSpace_query hquery c (List.mem_cons.mpr hc)

theorem splitObjectReference_archiveLink (hconfigured : env.IsConfigured) (hapart : HostsApart env)
    (hconfig : env.provider? (orElse providerKey env.s3DefaultProviderKey) = some config)
    (hne : b ≠ []) (hslash : '/' ∉ b)
    (hquery : ∀ c ∈ query archiveBucketName (archiveDestKey b k), isSpace c = false) :
    splitObjectReference T env (archiveLink T env query providerKey b k) =
      ⟨some archiveBucketName, archiveDestKey b k, some config.key⟩ := by
  have hleads := leadsBack_archiveBucket hconfigured hapart (Env.mem_of_provider? hconfig)
  exact splitObjectReference_bucketUrl hconfig hleads (head?_archiveDestKey hne hslash)
    (spells_quote _) (head?_query _) (isSpace_query hquery)

theorem parseArchiveRefs_archiveLink (hconfigured : env.IsConfigured) (hapart : HostsApart env)
    (hconfig : env.provider? (orElse providerKey env.s3DefaultProviderKey) = some config)
    (hne : b ≠ []) (hslash : '/' ∉ b)
    (hquery : ∀ c ∈ query archiveBucketName (archiveDestKey b k), isSpace c = false) :
    parseArchiveRefs T env [archiveLink T env query providerKey b k] =
      ⟨[⟨archiveBucketName, archiveDestKey b k, archiveLink T env query providerKey b k⟩], []⟩ := by
  have hread := splitObjectReference_archiveLink (T := T) hconfigured hapart hconfig hne hslash
    hquery
  have hstrip := strip_archiveLink (T := T) hconfig hquery
  generalize archiveLink T env query providerKey b k = link at hread hstrip ⊢
  have hnil : link ≠ [] := by
    rintro rfl
    have hbare := congrArg ObjectReference.bucket hread
    rw [splitObjectReference_bare rfl] at hbare
    cases hbare
  have hmem : '/' ∈ archiveDestKey b k := List.mem_append_right b List.mem_cons_self
  have hbucket : archiveBucketName ≠ [] := by decide
  simp [parseArchiveRefs, parseArchiveLine, pastedLocation, hstrip, hnil, hread, hmem, hbucket]

theorem generateBucketObjectsReport_eq
    (hconfig : env.provider? (orElse providerKey env.s3DefaultProviderKey) = some config)
    (formats : Formats) (formatBytes : ℕ → Str) (bucket : Str) (objects : List StorageObject) :
    generateBucketObjectsReport T env query formats formatBytes providerKey bucket objects =
      .ok [("Objects".toList, bucketObjectsHeaders.map .text :: objects.map fun obj ↦
          bucketObjectRow formats (signedUrl T env query providerKey bucket obj.key) obj),
        ("Summary".toList, bucketObjectsSummary formatBytes bucket objects)] := by
  have hclient : getS3Client env providerKey = .ok config := by
    simp [getS3Client, hconfig]
  unfold generateBucketObjectsReport
  rw [mapM_buildObjectPresignedUrl hclient (fun _ ↦ bucket) StorageObject.key
    (bucketObjectRow formats)]
  rfl

variable {readBack : Cell → Cell}

theorem summaryBucket_written (hread : KeepsText readBack) (formatBytes : ℕ → Str) {bucket : Str}
    (hne : bucket ≠ []) (hstrip : strip bucket = bucket) (objects : List StorageObject) :
    summaryBucket T ((bucketObjectsSummary formatBytes bucket objects).map fun row ↦
      row.map readBack) = bucket := by
  have hmetric : lower T (strip "Metric".toList) ≠ "bucket".toList := by
    have hself : strip "Metric".toList = "Metric".toList := by decide
    rw [hself, lower_of_ascii T (by decide)]
    decide
  have hbucket : lower T (strip "Bucket".toList) = "bucket".toList := by
    have hself : strip "Bucket".toList = "Bucket".toList := by decide
    rw [hself, lower_of_ascii T (by decide)]
    decide
  have hrow : isBucketRow T [readBack (.text "Metric".toList), readBack (.text "Value".toList)] =
      false := by
    rw [hread.text _ (by decide)]
    exact decide_eq_false hmetric
  have hrow' : isBucketRow T [readBack (.text "Bucket".toList), .text bucket] = true := by
    rw [hread.text _ (by decide)]
    exact decide_eq_true hbucket
  simp only [summaryBucket, bucketObjectsSummary, List.map_cons, List.map_nil,
    List.find?_cons_of_neg (Bool.eq_false_iff.mp hrow), List.find?_cons_of_pos hrow',
    hread.text bucket hne, hstrip]

theorem plain_bucketObjectsHeaders :
    ∀ s ∈ bucketObjectsHeaders, strip s = s ∧ ∀ c ∈ s, isAscii c = true := by
  decide

theorem parseBucketObjectRow_written (hread : KeepsText readBack) (formats : Formats) (url : Str)
    (obj : StorageObject) :
    (parseBucketObjectRow T (bucketObjectsHeaders.map .text)
      ((bucketObjectRow formats url obj).map readBack)).map ReportedObject.key =
        if obj.key = [] then none else some obj.key := by
  have hcell : cellValue T (bucketObjectsHeaders.map .text)
      ((bucketObjectRow formats url obj).map readBack) "key".toList = readBack (.text obj.key) :=
    cellValue_text (i := 0) _ plain_bucketObjectsHeaders (by decide)
  simp only [parseBucketObjectRow, hcell, hread.truthy]
  by_cases hkey : obj.key = []
  · simp [hkey]
  · simp [hkey, hread.text obj.key hkey, Cell.printed]

/-- Only an object without a key is lost. -/
theorem reportedKeys_written (hread : KeepsText readBack) (formats : Formats)
    (url : StorageObject → Str) (objects : List StorageObject) :
    (((objects.map fun obj ↦ bucketObjectRow formats (url obj) obj).map
        (List.map readBack)).filterMap
      (parseBucketObjectRow T (bucketObjectsHeaders.map .text))).map ReportedObject.key =
      (objects.map StorageObject.key).filter fun key ↦ decide (key ≠ []) := by
  rw [List.map_filterMap, List.filterMap_map, List.filterMap_map, ← List.filterMap_eq_filter,
    List.filterMap_map]
  apply List.filterMap_congr
  intro obj _
  simp only [Function.comp_apply, parseBucketObjectRow_written hread]
  by_cases hkey : obj.key = []
  · simp [hkey, Option.guard]
  · simp [hkey, Option.guard]

theorem parseBucketObjectsReport_workbook (hread : KeepsText readBack) (formatBytes : ℕ → Str)
    {bucket : Str} (hne : bucket ≠ []) (hstrip : strip bucket = bucket)
    (objects : List StorageObject) (rows : List (List Cell)) :
    parseBucketObjectsReport T (Workbook.reread readBack
        [("Objects".toList, bucketObjectsHeaders.map .text :: rows),
          ("Summary".toList, bucketObjectsSummary formatBytes bucket objects)]) =
      .ok (bucket, (rows.map (List.map readBack)).filterMap
        (parseBucketObjectRow T (bucketObjectsHeaders.map .text))) := by
  have hindex : colIndex T (bucketObjectsHeaders.map .text) "key".toList = some 0 := by
    rw [colIndex_text _ plain_bucketObjectsHeaders]
    decide
  have hheader : (bucketObjectsHeaders.map Cell.text).map readBack =
      bucketObjectsHeaders.map .text := hread.map_text (by decide)
  have hsheet : sheetRows (Workbook.reread readBack
      [("Objects".toList, bucketObjectsHeaders.map .text :: rows),
        ("Summary".toList, bucketObjectsSummary formatBytes bucket objects)]) "Objects".toList =
      some ((bucketObjectsHeaders.map .text).map readBack :: rows.map (List.map readBack)) := rfl
  have hsummary : sheetRows (Workbook.reread readBack
      [("Objects".toList, bucketObjectsHeaders.map .text :: rows),
        ("Summary".toList, bucketObjectsSummary formatBytes bucket objects)]) "Summary".toList =
      some ((bucketObjectsSummary formatBytes bucket objects).map fun row ↦ row.map readBack) :=
    rfl
  have hcells : bucketObjectsHeaders.map Cell.text ≠ [] := by decide
  unfold parseBucketObjectsReport
  rw [hsheet, hsummary, hheader]
  simp only [Option.getD_some, summaryBucket_written hread formatBytes hne hstrip, hne, hcells,
    hindex, if_false, Option.isNone_some, Bool.false_eq_true]

theorem parseBucketObjectsRoute_written (hread : KeepsText readBack)
    (hconfig : env.provider? (orElse providerKey env.s3DefaultProviderKey) = some config)
    (formats : Formats) (formatBytes : ℕ → Str) {bucket : Str} (hne : bucket ≠ [])
    (hstrip : strip bucket = bucket) (objects : List StorageObject) :
    ∃ report rows errors, generateBucketObjectsReport T env query formats formatBytes providerKey
        bucket objects = .ok report ∧
      parseBucketObjectsRoute T (report.reread readBack) = .ok (rows, errors) ∧
      rows.map (fun r ↦ (r.bucket, r.key)) =
        ((objects.map StorageObject.key).filter fun key ↦ key.contains '/').map (bucket, ·) := by
  have hparse := parseBucketObjectsReport_workbook (T := T) hread formatBytes hne hstrip objects
    (objects.map fun obj ↦
      bucketObjectRow formats (signedUrl T env query providerKey bucket obj.key) obj)
  have hkeys := reportedKeys_written (T := T) hread formats
    (fun obj ↦ signedUrl T env query providerKey bucket obj.key) objects
  refine ⟨_, _, _, generateBucketObjectsReport_eq hconfig formats formatBytes bucket objects,
    by rw [parseBucketObjectsRoute, hparse]; rfl, ?_⟩
  generalize List.filterMap _ _ = reported at hkeys ⊢
  have hslash : ∀ key : Str, (key.contains '/' && decide (key ≠ [])) = key.contains '/' := by
    intro key
    cases key with
    | nil => rfl
    | cons c key => simp
  have hrestorable : (reported.filter fun r ↦ r.key.contains '/').map ReportedObject.key =
      (objects.map StorageObject.key).filter fun key ↦ key.contains '/' := by
    have hfilter : (reported.filter fun r ↦ r.key.contains '/').map ReportedObject.key =
        (reported.map ReportedObject.key).filter fun key ↦ key.contains '/' :=
      List.filter_map.symm
    rw [hfilter, hkeys, List.filter_filter]
    simp only [hslash]
  rw [← hrestorable, List.map_map, List.map_map]
  rfl

end Reading

/-! ## Back to the original location -/

theorem partition_archiveDestKey {b : Str} (hslash : '/' ∉ b) (k : Str) :
    partition '/' (archiveDestKey b k) = (b, k) := partition_append hslash

theorem validateRestoreBody_archived {b k : Str} (hslash : '/' ∉ b) (hne : b ≠ archiveBucketName)
    {body : RestoreFromArchiveBody}
    (hitems : body.items.map (fun item ↦ (item.bucket, item.key)) =
      [(archiveBucketName, archiveDestKey b k)]) :
    validateRestoreBody body = .ok () := by
  obtain ⟨item, hitem, hpair⟩ := List.map_eq_singleton_iff.mp hitems
  obtain ⟨hbucket, hkey⟩ := Prod.mk.inj hpair
  have hmem : '/' ∈ archiveDestKey b k := List.mem_append_right b List.mem_cons_self
  have hdest : restoreDestBucket item.bucket item.key ≠ item.bucket := by
    rw [restoreDestBucket, hkey, hbucket, partition_archiveDestKey hslash]
    exact hne
  have hwellFormed : [item].filter (fun item ↦ !item.key.contains '/') = [] := by
    simp [hkey, hmem]
  have hapart : [item].filter (fun item ↦
      decide (restoreDestBucket item.bucket item.key = item.bucket)) = [] := by
    simp [hdest]
  unfold validateRestoreBody
  rw [hitem, hwellFormed, hapart]
  rfl

/-- However the providers are configured, the signed link of an archived object and the
listing of the archive bucket give its archive key, which a restore accepts and takes
back to the bucket and the key of the object. -/
theorem archivedObject_leadsBack {T : Tables} {env : Env} {query : Str → Str → Str}
    {providerKey : Option Str} {config : S3ProviderConfig} {readBack : Cell → Cell} {b k : Str}
    (hconfigured : env.IsConfigured) (hapart : HostsApart env)
    (hconfig : env.provider? (orElse providerKey env.s3DefaultProviderKey) = some config)
    (hne : b ≠ []) (hslash : '/' ∉ b) (hother : b ≠ archiveBucketName)
    (hquery : ∀ c ∈ query archiveBucketName (archiveDestKey b k), isSpace c = false)
    (hread : KeepsText readBack) :
    parseArchiveRefs T env [archiveLink T env query providerKey b k] =
      ⟨[⟨archiveBucketName, archiveDestKey b k, archiveLink T env query providerKey b k⟩], []⟩ ∧
    (∀ (formats : Formats) (formatBytes : ℕ → Str) (objects : List StorageObject),
      ∃ report rows errors, generateBucketObjectsReport T env query formats formatBytes
          providerKey archiveBucketName objects = .ok report ∧
        parseBucketObjectsRoute T (report.reread readBack) = .ok (rows, errors) ∧
        rows.map (fun r ↦ (r.bucket, r.key)) =
          ((objects.map StorageObject.key).filter fun key ↦ key.contains '/').map
            (archiveBucketName, ·) ∧
        ((∃ obj ∈ objects, obj.key = archiveDestKey b k) →
          (archiveBucketName, archiveDestKey b k) ∈ rows.map fun r ↦ (r.bucket, r.key))) ∧
    (∀ body : RestoreFromArchiveBody,
      body.items.map (fun item ↦ (item.bucket, item.key)) =
        [(archiveBucketName, archiveDestKey b k)] → validateRestoreBody body = .ok ()) ∧
    restoreDestBucket archiveBucketName (archiveDestKey b k) = b ∧
      restoreDestKey archiveBucketName (archiveDestKey b k) = k := by
  refine ⟨parseArchiveRefs_archiveLink hconfigured hapart hconfig hne hslash hquery, ?_,
    fun body hitems ↦ validateRestoreBody_archived hslash hother hitems, ?_, ?_⟩
  · intro formats formatBytes objects
    have hstrip : strip archiveBucketName = archiveBucketName := by decide
    obtain ⟨report, rows, errors, hreport, hparse, hrows⟩ :=
      parseBucketObjectsRoute_written (T := T) hread hconfig formats formatBytes (by decide) hstrip
        objects
    refine ⟨report, rows, errors, hreport, hparse, hrows, ?_⟩
    rintro ⟨obj, hobj, hkey⟩
    have hmem : '/' ∈ archiveDestKey b k := List.mem_append_right b List.mem_cons_self
    rw [hrows]
    refine List.mem_map_of_mem (List.mem_filter.mpr ⟨?_, by simp [hmem]⟩)
    exact hkey ▸ List.mem_map_of_mem hobj
  · rw [restoreDestBucket, partition_archiveDestKey hslash]
  · rw [restoreDestKey, partition_archiveDestKey hslash]

/-- A key with two slashes in a row and a question mark, archived in Singapore. -/
theorem archivedObject_leadsBack_sgp1 :
    let link := archiveLink Tables.ascii sgp1Env (fun _ _ ↦ "X-Amz-Expires=604800".toList)
      (some "do-sgp1".toList) "uploads".toList "/a//b?.png".toList
    parseArchiveRefs Tables.ascii sgp1Env [link] =
      ⟨[⟨archiveBucketName, archiveDestKey "uploads".toList "/a//b?.png".toList, link⟩], []⟩ := by
  have hapart : HostsApart sgp1Env := by
    intro p hp q hq hne
    rw [List.mem_singleton.mp hp, List.mem_singleton.mp hq] at hne
    exact absurd rfl hne
  have hconfig : sgp1Env.provider? (orElse (some "do-sgp1".toList) sgp1Env.s3DefaultProviderKey) =
      some sgp1Provider := by decide
  have hread : KeepsText id := ⟨fun _ _ ↦ rfl, .inl rfl⟩
  have hquery : ∀ c ∈ "X-Amz-Expires=604800".toList, isSpace c = false := by decide
  exact (archivedObject_leadsBack sgp1Env_isConfigured hapart hconfig (by decide) (by decide)
    (by decide) hquery hread).1

end StorageReconciler
