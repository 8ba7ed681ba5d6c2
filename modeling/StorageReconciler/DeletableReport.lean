import Mathlib.Data.List.Find
import StorageReconciler.Sheets
import StorageReconciler.UrlSpellings

/-!
# Reports of deletable objects

The reports on orphans and cleanup candidates list an object by a signed link,
and carry its bucket and key in hidden columns.  Without these the object is
read back from the link, and that depends on how the host of the link is read.
-/

namespace StorageReconciler

open Strings UrlSplit PercentCoding

/-! ## Links -/

/-- `get_s3_client`, as far as it looks up the configuration. -/
def getS3Client (env : Env) (providerKey : Option Str) : Except Str S3ProviderConfig :=
  let key := orElse providerKey env.s3DefaultProviderKey
  match env.provider? key with
  | some config => .ok config
  | none =>
      if key.getD [] = [] then
        .error ("No Object Storage provider is configured. Set S3_<PROVIDER>_ACCESS_KEY / " ++
          "_SECRET_KEY in .env (see .env.example).").toList
      else
        let available := ", ".toList.intercalate (env.s3Providers.map S3ProviderConfig.key)
        .error ("Unknown storage provider \"".toList ++ key.getD [] ++ "\". Available: ".toList ++
          if available = [] then "(none configured)".toList else available)

/-- The base URL, the quoted key, and a query to sign them. -/
def signedUrl (T : Tables) (env : Env) (query : Str → Str → Str) (providerKey : Option Str)
    (bucket key : Str) : Str :=
  buildBucketUrl T env providerKey bucket ++ '/' :: (quote key ++ '?' :: query bucket key)

/-- The signed link of an object; `query` is what the client signs it with. -/
def buildObjectPresignedUrl (T : Tables) (env : Env) (query : Str → Str → Str)
    (providerKey : Option Str) (bucket key : Str) : Except Str Str :=
  (getS3Client env providerKey).map fun _ ↦ signedUrl T env query providerKey bucket key

/-! ## Writing -/

abbrev CleanupCandidate := OrphanFile

/-- How sizes and dates are written. -/
structure Formats where
  mb : ℕ → Cell
  yearMonth : Option DateTime → Cell
  naive : Option DateTime → Cell

def orphanHeaders : List Str :=
  ["Path", "Size (MB)", "Last Modified", "Bucket", "Key"].map String.toList

def orphanRow (formats : Formats) (url : Str) (file : OrphanFile) : List Cell :=
  [.text url, formats.mb file.size, formats.yearMonth file.lastModified, .text file.bucket,
    .text file.path]

def candidateHeaders : List Str :=
  ["Path", "Bucket", "Size (MB)", "Last Modified", "Key"].map String.toList

def candidateRow (formats : Formats) (url : Str) (file : CleanupCandidate) : List Cell :=
  [.text url, .text file.bucket, formats.mb file.size, formats.naive file.lastModified,
    .text file.path]

/-- The two sheets that name deletable objects. -/
inductive DeletableSheet where
  | orphan
  | cleanupCandidates
  deriving DecidableEq

namespace DeletableSheet

def name : DeletableSheet → Str
  | orphan => "Orphan".toList
  | cleanupCandidates => "Cleanup Candidates".toList

def headers : DeletableSheet → List Str
  | orphan => orphanHeaders
  | cleanupCandidates => candidateHeaders

def row (formats : Formats) : DeletableSheet → Str → OrphanFile → List Cell
  | orphan => orphanRow formats
  | cleanupCandidates => candidateRow formats

/-- The number of columns that are not hidden; the hidden ones come last. -/
def visibleColumns : DeletableSheet → ℕ
  | orphan => 3
  | cleanupCandidates => 4

/-- The workbook of the report, whatever its other sheets hold. -/
def workbook (others : Str → List (List Cell)) (sheet : DeletableSheet)
    (rows : List (List Cell)) : Workbook :=
  match sheet with
  | orphan =>
      [("Matched".toList, others "Matched".toList), ("Missing".toList, others "Missing".toList),
        ("Orphan".toList, rows),
        ("Protected (rich-text, JSON)".toList, others "Protected (rich-text, JSON)".toList),
        ("Summary".toList, others "Summary".toList)]
  | cleanupCandidates =>
      [("Cleanup Candidates".toList, rows),
        ("Protected (in rich-text content)".toList,
          others "Protected (in rich-text content)".toList),
        ("Summary".toList, others "Summary".toList)]

/-- Header and rows of the sheet, as the report writes them. -/
def write (T : Tables) (env : Env) (query : Str → Str → Str) (formats : Formats)
    (provider : Option Str) (sheet : DeletableSheet) (files : List OrphanFile) :
    Except Str (List (List Cell)) := do
  let rows ← files.mapM fun file ↦
    (buildObjectPresignedUrl T env query provider file.bucket file.path).map fun url ↦
      sheet.row formats url file
  return sheet.headers.map .text :: rows

/-- The sheet without its hidden columns. -/
def dropHidden (sheet : DeletableSheet) (rows : List (List Cell)) : List (List Cell) :=
  rows.map (List.take sheet.visibleColumns)

end DeletableSheet

/-! ## Reading -/

structure DeletableObject where
  path : Cell
  bucket : Cell
  key : Cell
  sizeMb : Cell
  lastModified : Option Str
  deriving DecidableEq

/-- `str(value)`, for a cell that holds something. -/
def Cell.printed : Cell → Str
  | .blank => "None".toList
  | .text s => s
  | .number printed _ => printed

def deletableSheetNames : List Str := ["Orphan".toList, "Cleanup Candidates".toList]

/-- Bucket and key of a row, from their columns or else from the link. -/
def deletableAddress (T : Tables) (env : Env) (header row : List Cell) : Cell × Cell :=
  if (colIndex T header "bucket".toList).isSome && (colIndex T header "key".toList).isSome then
    (cellValue T header row "bucket".toList, cellValue T header row "key".toList)
  else
    let path := cellValue T header row "path".toList
    if path.truthy then
      let r := splitObjectReference T env path.printed
      ((r.bucket.map Cell.text).getD .blank, .text r.key)
    else (.blank, .blank)

def parseDeletableRow (T : Tables) (env : Env) (header row : List Cell) :
    Option DeletableObject :=
  let address := deletableAddress T env header row
  if !address.1.truthy || !address.2.truthy then none
  else
    let lastModified := cellValue T header row "last modified".toList
    some
      { path := cellValue T header row "path".toList
        bucket := address.1
        key := address.2
        sizeMb := cellValue T header row "size (mb)".toList
        lastModified := if lastModified = .blank then none else some lastModified.printed }

def parseDeletableReport (T : Tables) (env : Env) (workbook : Workbook) :
    Except Str (List DeletableObject) :=
  match deletableSheetNames.find? fun name ↦ (workbook.map Prod.fst).contains name with
  | none => .error ("No Orphan or Cleanup Candidates sheet found in the uploaded file — " ++
      "upload a report downloaded from Auto reconciliation or DO cleanup candidates.").toList
  | some name =>
      match (workbook.find? fun s ↦ decide (s.1 = name)).map Prod.snd with
      | none => .ok []
      | some [] => .ok []
      | some (header :: rows) =>
          if header = [] then .ok []
          else if (colIndex T header "path".toList).isNone ||
              (colIndex T header "size (mb)".toList).isNone then
            .error ("'".toList ++ name ++
              "' sheet is missing expected column(s): path, size (mb)".toList)
          else .ok (rows.filterMap (parseDeletableRow T env header))

/-- The rows that reading the report gives, by bucket and key. -/
def deletedPairs (T : Tables) (env : Env) (workbook : Workbook) :
    Except Str (List (Cell × Cell)) :=
  (parseDeletableReport T env workbook).map fun rows ↦ rows.map fun row ↦ (row.bucket, row.key)

/-! ## How a link is read -/

/-- How the lowered host is read: by the first endpoint that recognises it, or else by
the AWS pattern. -/
def hostReading (env : Env) (hostLower : Str) : HostReading :=
  match env.s3Providers.find? (·.recognises hostLower) with
  | some config =>
      if config.forcePathStyle then .inPath
      else
        let suffix := (config.endpoint.map fun e ↦ e.hostLower.length + 1).getD 0
        .bucket (hostLower.take (hostLower.length - suffix))
  | none => awsReading hostLower

theorem head?_key_ne (T : Tables) (env : Env) (value : Str) :
    (splitObjectReference T env value).key.head? ≠ some '/' := by
  unfold splitObjectReference
  simp only
  split_ifs with hhttp
  · exact head?_lstripChar_ne '/' _
  · cases urlparse T (strip value) with
    | none => exact head?_lstripChar_ne '/' _
    | some parsed =>
        simp only
        cases splitS3StyleUrl T env (lstripChar '/' (unquote parsed.path)) parsed.netloc with
        | none => exact head?_lstripChar_ne '/' _
        | some r => exact head?_lstripChar_ne '/' _

theorem partition_fst_ne_nil {pathname : Str} (hne : pathname ≠ [])
    (hhead : pathname.head? ≠ some '/') : (partition '/' pathname).1 ≠ [] := by
  cases pathname with
  | nil => exact absurd rfl hne
  | cons c s =>
      have hc : (c != '/') = true := by simpa using hhead
      simp [partition, hc]

/-- The host decides how a path that is not empty is read. -/
theorem address_referenceAt {T : Tables} {env : Env} {netloc path pathname : Str}
    (hpath : lstripChar '/' (unquote path) = pathname) (hne : pathname ≠ []) :
    (referenceAt T env netloc path).address =
      (hostReading env (lower T netloc)).read pathname := by
  have hhead : pathname.head? ≠ some '/' := hpath ▸ head?_lstripChar_ne '/' _
  have hfirst := partition_fst_ne_nil hne hhead
  unfold hostReading
  cases hfind : env.s3Providers.find? (·.recognises (lower T netloc)) with
  | some config =>
      have hrec : config.recognises (lower T netloc) = true := by
        simpa using List.find?_some hfind
      cases hforce : config.forcePathStyle with
      | true =>
          have hmatch := matchProvider_pathStyle (T := T) hrec hforce hfirst
          rw [referenceAt, hpath, splitS3StyleUrl_of_find? hfind hmatch]
          simp [hforce, HostReading.read, ObjectReference.address, hfirst]
      | false =>
          obtain ⟨b, e, hend, hhost, hread⟩ := referenceAt_virtual path hfind hforce
          have htake : (lower T netloc).take ((lower T netloc).length - (e.hostLower.length + 1)) =
              b := by
            rw [hhost]
            simp [Endpoint.hostLower]
          rw [hread, hpath]
          simp [hforce, hend, htake, HostReading.read, ObjectReference.address]
  | none =>
      rw [referenceAt_of_find?_eq_none hfind, hpath]
      exact (awsReference_eq (lower T netloc) hhead).1

/-- The link to an object is read as this object: its key does not begin with a slash,
and the host of the link is read the way the link was built. -/
def LeadsToObject (env : Env) (provider : Option Str) (bucket key : Str) : Prop :=
  key.head? ≠ some '/' ∧ ∀ config, getS3Client env provider = .ok config →
    hostReading env ((config.bucketHost bucket).map Char.toLower) =
      if config.bucketInPath then .inPath else .bucket bucket

theorem provider?_of_getS3Client {env : Env} {provider : Option Str} {config : S3ProviderConfig}
    (h : getS3Client env provider = .ok config) :
    env.provider? (orElse provider env.s3DefaultProviderKey) = some config := by
  unfold getS3Client at h
  cases hconfig : env.provider? (orElse provider env.s3DefaultProviderKey) with
  | some c =>
      simp only [hconfig] at h
      exact congrArg some (Except.ok.inj h)
  | none =>
      simp only [hconfig] at h
      split_ifs at h

theorem leadsToObject_iff {env : Env} {provider : Option Str} {config : S3ProviderConfig}
    {bucket k : Str} (hconfig : getS3Client env provider = .ok config)
    (hhead : k.head? ≠ some '/') :
    LeadsToObject env provider bucket k ↔
      hostReading env ((config.bucketHost bucket).map Char.toLower) =
        if config.bucketInPath then .inPath else .bucket bucket := by
  constructor
  · exact fun h ↦ h.2 config hconfig
  · intro h
    refine ⟨hhead, fun config' hconfig' ↦ ?_⟩
    obtain rfl : config = config' := Except.ok.inj (hconfig.symm.trans hconfig')
    exact h

theorem head?_query (query : Str) :
    ∀ c, ('?' :: query).head? = some c → c = '?' ∨ c = '#' := by
  rintro c ⟨rfl⟩
  exact .inl rfl

theorem isSpace_query {query : Str} (h : ∀ c ∈ query, isSpace c = false) :
    ∀ c ∈ '?' :: query, isSpace c = false := by
  intro c hc
  rcases List.mem_cons.mp hc with rfl | hc
  · decide
  · exact h c hc

theorem address_signedUrl_iff {T : Tables} {env : Env} {query : Str → Str → Str}
    {provider : Option Str} {config : S3ProviderConfig} {bucket k : Str}
    (hconfig : getS3Client env provider = .ok config) (hb : IsBucketName bucket) (hk : k ≠ [])
    (hquery : ∀ c ∈ query bucket k, isSpace c = false) :
    (splitObjectReference T env (signedUrl T env query provider bucket k)).address =
      (some bucket, k) ↔ LeadsToObject env provider bucket k := by
  have hsplit := splitObjectReference_objectUrl (T := T) (provider?_of_getS3Client hconfig) hb
    (spells_quote k) (head?_query _) (isSpace_query hquery)
  have hlower : lower T (config.bucketHost bucket) =
      (config.bucketHost bucket).map Char.toLower :=
    lower_netloc (config.isHostChar_bucketHost hb)
  by_cases hhead : k.head? = some '/'
  · refine iff_of_false (fun heq ↦ ?_) fun h ↦ h.1 hhead
    have hkey := head?_key_ne T env (signedUrl T env query provider bucket k)
    have hsnd : (splitObjectReference T env (signedUrl T env query provider bucket k)).key = k :=
      congrArg Prod.snd heq
    rw [hsnd] at hkey
    exact hkey hhead
  · rw [leadsToObject_iff hconfig hhead, signedUrl, hsplit, ← hlower]
    cases hpath : config.bucketInPath with
    | true =>
        have hpathname : lstripChar '/' (unquote ('/' :: (bucket ++ '/' :: quote k))) =
            bucket ++ '/' :: k := by
          rw [lstripChar_unquote_bucket hb, unquote_quote]
        have hne : bucket ++ '/' :: k ≠ [] := by simp
        rw [if_pos rfl, address_referenceAt hpathname hne, HostReading.read_path_iff hb hhead]
        rfl
    | false =>
        have hpathname : lstripChar '/' (unquote ('/' :: quote k)) = k := by
          rw [unquote_cons (by decide), unquote_quote]
          exact lstripChar_eq_self hhead
        rw [if_neg Bool.false_ne_true, address_referenceAt hpathname hk, HostReading.read_host_iff]
        rfl

/-! ## The columns of the sheets -/

theorem DeletableSheet.plain_headers (sheet : DeletableSheet) :
    ∀ s ∈ sheet.headers, strip s = s ∧ ∀ c ∈ s, isAscii c = true := by
  cases sheet <;> decide

theorem DeletableSheet.plain_visible (sheet : DeletableSheet) :
    ∀ s ∈ sheet.headers.take sheet.visibleColumns, strip s = s ∧ ∀ c ∈ s, isAscii c = true :=
  fun s hs ↦ sheet.plain_headers s (List.mem_of_mem_take hs)

theorem DeletableSheet.hidden_columns (sheet : DeletableSheet) :
    ∃ i j, columnOf sheet.headers "bucket".toList = some i ∧
      columnOf sheet.headers "key".toList = some j ∧
      ∀ formats url file, (sheet.row formats url file)[i]? = some (.text file.bucket) ∧
        (sheet.row formats url file)[j]? = some (.text file.path) := by
  cases sheet with
  | orphan => exact ⟨3, 4, by decide, by decide, fun _ _ _ ↦ ⟨rfl, rfl⟩⟩
  | cleanupCandidates => exact ⟨1, 4, by decide, by decide, fun _ _ _ ↦ ⟨rfl, rfl⟩⟩

theorem DeletableSheet.visible_columns (sheet : DeletableSheet) :
    columnOf (sheet.headers.take sheet.visibleColumns) "path".toList = some 0 ∧
      (columnOf (sheet.headers.take sheet.visibleColumns) "size (mb)".toList).isSome = true ∧
      columnOf (sheet.headers.take sheet.visibleColumns) "key".toList = none := by
  cases sheet <;> exact ⟨by decide, by decide, by decide⟩

theorem DeletableSheet.written_columns (sheet : DeletableSheet) :
    columnOf sheet.headers "path".toList = some 0 ∧
      (columnOf sheet.headers "size (mb)".toList).isSome = true := by
  cases sheet <;> exact ⟨by decide, by decide⟩

section Report

variable {T : Tables} {env : Env} {query : Str → Str → Str} {formats : Formats}
  {provider : Option Str} {sheet : DeletableSheet}

def addressCells (address : Option Str × Str) : Cell × Cell :=
  ((address.1.map .text).getD .blank, .text address.2)

theorem deletableAddress_written (url : Str) (file : OrphanFile) :
    deletableAddress T env (sheet.headers.map .text) (sheet.row formats url file) =
      (.text file.bucket, .text file.path) := by
  obtain ⟨i, j, hi, hj, hrow⟩ := sheet.hidden_columns
  obtain ⟨hbucket, hkey⟩ := hrow formats url file
  calc
    deletableAddress T env (sheet.headers.map .text) (sheet.row formats url file) =
        (cellValue T (sheet.headers.map .text) (sheet.row formats url file) "bucket".toList,
          cellValue T (sheet.headers.map .text) (sheet.row formats url file) "key".toList) := by
      rw [deletableAddress, colIndex_text _ sheet.plain_headers,
        colIndex_text _ sheet.plain_headers, hi, hj]
      rfl
    _ = (.text file.bucket, .text file.path) := by
      rw [cellValue_text _ sheet.plain_headers hi, cellValue_text _ sheet.plain_headers hj,
        hbucket, hkey]
      rfl

theorem deletableAddress_visible {url : Str} (hurl : url ≠ []) (file : OrphanFile) :
    deletableAddress T env ((sheet.headers.take sheet.visibleColumns).map .text)
        ((sheet.row formats url file).take sheet.visibleColumns) =
      addressCells (splitObjectReference T env url).address := by
  obtain ⟨hpath, _, hkey⟩ := sheet.visible_columns
  have hcell : ((sheet.row formats url file).take sheet.visibleColumns)[0]? =
      some (.text url) := by
    cases sheet <;> rfl
  rw [deletableAddress, colIndex_text "key".toList sheet.plain_visible, hkey,
    cellValue_text _ sheet.plain_visible hpath, hcell, Option.isSome_none, Bool.and_false,
    if_neg Bool.false_ne_true]
  simp [Cell.truthy, hurl, Cell.printed, addressCells, ObjectReference.address]

/-- A pair is kept when both parts hold something. -/
def keptPair (address : Cell × Cell) : Option (Cell × Cell) :=
  if !address.1.truthy || !address.2.truthy then none else some address

theorem map_parseDeletableRow (header row : List Cell) :
    (parseDeletableRow T env header row).map (fun r ↦ (r.bucket, r.key)) =
      keptPair (deletableAddress T env header row) := by
  unfold parseDeletableRow keptPair
  simp only
  split_ifs <;> rfl

theorem keptPair_addressCells_iff {address : Option Str × Str} {bucket k : Str}
    (hb : bucket ≠ []) (hk : k ≠ []) :
    keptPair (addressCells address) = some (.text bucket, .text k) ↔
      address = (some bucket, k) := by
  obtain ⟨b, key⟩ := address
  cases b with
  | none => simp [keptPair, addressCells, Cell.truthy]
  | some b =>
      constructor
      · intro h
        unfold keptPair at h
        split_ifs at h
        have heq := Option.some.inj h
        simpa [addressCells] using heq
      · intro h
        obtain ⟨rfl, rfl⟩ := by simpa using h
        simp [keptPair, addressCells, Cell.truthy, hb, hk]

theorem deletedPairs_workbook (T : Tables) (env : Env) (sheet : DeletableSheet)
    (others : Str → List (List Cell)) {names : List Str} (rows : List (List Cell))
    (hne : names ≠ [])
    (hplain : ∀ s ∈ names, strip s = s ∧ ∀ c ∈ s, isAscii c = true)
    (hpath : columnOf names "path".toList = some 0)
    (hsize : (columnOf names "size (mb)".toList).isSome = true) :
    deletedPairs T env (sheet.workbook others (names.map .text :: rows)) =
      .ok (rows.filterMap fun row ↦ keptPair (deletableAddress T env (names.map .text) row)) := by
  have hname : (deletableSheetNames.find? fun name ↦
      ((sheet.workbook others (names.map .text :: rows)).map Prod.fst).contains name) =
      some sheet.name := by
    cases sheet <;> rfl
  have hsheet : ((sheet.workbook others (names.map .text :: rows)).find? fun s ↦
      decide (s.1 = sheet.name)).map Prod.snd = some (names.map .text :: rows) := by
    cases sheet <;> rfl
  have hheader : names.map Cell.text ≠ [] := by simpa using hne
  have hcolumns : ((colIndex T (names.map .text) "path".toList).isNone ||
      (colIndex T (names.map .text) "size (mb)".toList).isNone) = false := by
    rw [colIndex_text _ hplain, colIndex_text _ hplain, hpath]
    simpa using hsize
  have hparse : parseDeletableReport T env (sheet.workbook others (names.map .text :: rows)) =
      .ok (rows.filterMap (parseDeletableRow T env (names.map .text))) := by
    rw [parseDeletableReport, hname]
    simp only [hsheet, if_neg hheader, hcolumns, Bool.false_eq_true, if_false]
  rw [deletedPairs, hparse]
  simp only [Except.map, List.map_filterMap, map_parseDeletableRow]

theorem filterMap_eq_map_iff {α β : Type*} {f : α → Option β} {g : α → β} {l : List α} :
    l.filterMap f = l.map g ↔ ∀ a ∈ l, f a = some (g a) := by
  induction l with
  | nil => simp
  | cons a l ih =>
      cases hfa : f a with
      | none =>
          have hlen : (l.filterMap f).length ≤ l.length := List.length_filterMap_le f l
          refine iff_of_false (fun heq ↦ ?_) fun h ↦ ?_
          · rw [List.filterMap_cons_none hfa] at heq
            have hlen' := congrArg List.length heq
            simp only [List.length_map, List.length_cons] at hlen'
            omega
          · exact absurd (hfa.symm.trans (h a List.mem_cons_self)) (by simp)
      | some b =>
          rw [List.filterMap_cons_some hfa, List.map_cons, List.cons.injEq, ih]
          simp [hfa]

theorem mapM_buildObjectPresignedUrl {α : Type*} {config : S3ProviderConfig}
    (hclient : getS3Client env provider = .ok config) (bucket key : α → Str)
    (row : Str → α → List Cell) (objects : List α) :
    (objects.mapM fun obj ↦ (buildObjectPresignedUrl T env query provider (bucket obj)
        (key obj)).map fun url ↦ row url obj) =
      .ok (objects.map fun obj ↦
        row (signedUrl T env query provider (bucket obj) (key obj)) obj) := by
  simp only [buildObjectPresignedUrl, hclient, Except.map]
  exact List.mapM_pure

theorem rows_of_write {files : List OrphanFile} {rows : List (List Cell)}
    (h : sheet.write T env query formats provider files = .ok rows) :
    rows = sheet.headers.map .text :: files.map (fun file ↦
        sheet.row formats (signedUrl T env query provider file.bucket file.path) file) ∧
      (files ≠ [] → ∃ config, getS3Client env provider = .ok config) := by
  unfold DeletableSheet.write at h
  cases hclient : getS3Client env provider with
  | ok config =>
      refine ⟨?_, fun _ ↦ ⟨config, rfl⟩⟩
      rw [mapM_buildObjectPresignedUrl hclient OrphanFile.bucket OrphanFile.path
        (sheet.row formats)] at h
      exact (Except.ok.inj h).symm
  | error e =>
      cases files with
      | nil => exact ⟨(Except.ok.inj h).symm, fun hne ↦ absurd rfl hne⟩
      | cons file files =>
          simp only [buildObjectPresignedUrl, hclient, Except.map, List.mapM_cons] at h
          cases h

def listedPair (file : OrphanFile) : Cell × Cell := (.text file.bucket, .text file.path)

theorem signedUrl_ne_nil (bucket key : Str) : signedUrl T env query provider bucket key ≠ [] := by
  simp [signedUrl]

theorem deletedPairs_written (others : Str → List (List Cell)) (url : OrphanFile → Str)
    {files : List OrphanFile} (hbucket : ∀ file ∈ files, IsBucketName file.bucket)
    (hkey : ∀ file ∈ files, file.path ≠ []) :
    deletedPairs T env (sheet.workbook others (sheet.headers.map .text :: files.map fun file ↦
      sheet.row formats (url file) file)) = .ok (files.map listedPair) := by
  obtain ⟨hpath, hsize⟩ := sheet.written_columns
  have hne : sheet.headers ≠ [] := by cases sheet <;> decide
  rw [deletedPairs_workbook T env sheet others _ hne sheet.plain_headers hpath hsize,
    List.filterMap_map]
  congr 1
  rw [filterMap_eq_map_iff]
  intro file hfile
  have hb := (hbucket file hfile).ne_nil
  simp only [Function.comp_apply, deletableAddress_written]
  simp [keptPair, Cell.truthy, hb, hkey file hfile, listedPair]

theorem deletedPairs_dropHidden (others : Str → List (List Cell)) {url : OrphanFile → Str}
    (hurl : ∀ file, url file ≠ []) (files : List OrphanFile) :
    deletedPairs T env (sheet.workbook others (sheet.dropHidden (sheet.headers.map .text ::
        files.map fun file ↦ sheet.row formats (url file) file))) =
      .ok (files.filterMap fun file ↦
        keptPair (addressCells (splitObjectReference T env (url file)).address)) := by
  obtain ⟨hpath, hsize, _⟩ := sheet.visible_columns
  have hne : sheet.headers.take sheet.visibleColumns ≠ [] := by cases sheet <;> decide
  have hdrop : sheet.dropHidden (sheet.headers.map .text :: files.map fun file ↦
      sheet.row formats (url file) file) =
      (sheet.headers.take sheet.visibleColumns).map .text :: files.map fun file ↦
        (sheet.row formats (url file) file).take sheet.visibleColumns := by
    simp [DeletableSheet.dropHidden]
  rw [hdrop, deletedPairs_workbook T env sheet others _ hne sheet.plain_visible hpath hsize,
    List.filterMap_map]
  congr 2
  funext file
  simp only [Function.comp_apply, deletableAddress_visible (hurl file)]

/-- With and without its hidden columns, the sheet is read as the listed objects. -/
def HiddenColumnsIdle (T : Tables) (env : Env) (sheet : DeletableSheet)
    (others : Str → List (List Cell)) (files : List OrphanFile) (rows : List (List Cell)) : Prop :=
  deletedPairs T env (sheet.workbook others rows) = .ok (files.map listedPair) ∧
    deletedPairs T env (sheet.workbook others (sheet.dropHidden rows)) =
      deletedPairs T env (sheet.workbook others rows)

theorem hiddenColumnsIdle_iff_address {others : Str → List (List Cell)} {url : OrphanFile → Str}
    {files : List OrphanFile} (hurl : ∀ file, url file ≠ [])
    (hbucket : ∀ file ∈ files, IsBucketName file.bucket) (hkey : ∀ file ∈ files, file.path ≠ []) :
    HiddenColumnsIdle T env sheet others files (sheet.headers.map .text :: files.map fun file ↦
        sheet.row formats (url file) file) ↔
      ∀ file ∈ files,
        (splitObjectReference T env (url file)).address = (some file.bucket, file.path) := by
  rw [HiddenColumnsIdle, deletedPairs_written others _ hbucket hkey,
    deletedPairs_dropHidden others hurl]
  simp only [true_and, Except.ok.injEq]
  rw [filterMap_eq_map_iff]
  refine forall_congr' fun file ↦ forall_congr' fun hfile ↦ ?_
  rw [listedPair, keptPair_addressCells_iff (hbucket file hfile).ne_nil (hkey file hfile)]

/-- Without the hidden columns a report deletes the objects it lists exactly when each
link leads to its object. -/
theorem hidden_columns_idle_iff {files : List OrphanFile} {rows : List (List Cell)}
    (others : Str → List (List Cell)) (hbucket : ∀ file ∈ files, IsBucketName file.bucket)
    (hkey : ∀ file ∈ files, file.path ≠ [])
    (hquery : ∀ bucket key, ∀ c ∈ query bucket key, isSpace c = false)
    (hwritten : sheet.write T env query formats provider files = .ok rows) :
    HiddenColumnsIdle T env sheet others files rows ↔
      ∀ file ∈ files, LeadsToObject env provider file.bucket file.path := by
  obtain ⟨rfl, hclient⟩ := rows_of_write hwritten
  rw [hiddenColumnsIdle_iff_address (fun file ↦ signedUrl_ne_nil _ _) hbucket hkey]
  refine forall_congr' fun file ↦ forall_congr' fun hfile ↦ ?_
  obtain ⟨config, hconfig⟩ := hclient (List.ne_nil_of_mem hfile)
  exact address_signedUrl_iff hconfig (hbucket file hfile) (hkey file hfile) (hquery _ _)

end Report

/-! ## One orphan in a bucket -/

def plainFormats : Formats := ⟨fun _ ↦ .blank, fun _ ↦ .text [], fun _ ↦ .blank⟩

def plainQuery (_ _ : Str) : Str := "X-Amz-Expires=604800".toList

def schoolOrphans (key : Str) : List OrphanFile := [⟨key, "scola".toList, 5, none⟩]

theorem isBucketName_schoolOrphans (key : Str) :
    ∀ file ∈ schoolOrphans key, IsBucketName file.bucket := by
  have hscola : IsBucketName "scola".toList := ⟨by decide, by decide⟩
  intro file hfile
  obtain rfl := List.mem_singleton.mp hfile
  exact hscola

theorem isSpace_plainQuery (bucket key : Str) :
    ∀ c ∈ plainQuery bucket key, isSpace c = false := by
  have hquery : ∀ c ∈ "X-Amz-Expires=604800".toList, isSpace c = false := by decide
  exact hquery

theorem hidden_columns_idle_iff_photo :
    ∃ rows, DeletableSheet.orphan.write Tables.ascii sgp1Env plainQuery plainFormats none
        (schoolOrphans "a b.png".toList) = .ok rows ∧
      (HiddenColumnsIdle Tables.ascii sgp1Env .orphan (fun _ ↦ [])
          (schoolOrphans "a b.png".toList) rows ↔
        ∀ file ∈ schoolOrphans "a b.png".toList,
          LeadsToObject sgp1Env none file.bucket file.path) :=
  ⟨_, rfl, hidden_columns_idle_iff (fun _ ↦ []) (isBucketName_schoolOrphans _) (by decide)
    isSpace_plainQuery rfl⟩

/-- The key of the orphan begins with a slash, and without the hidden columns its row
deletes the object without it. -/
theorem hidden_columns_change_deleted :
    ¬∀ (T : Tables) (env : Env) (query : Str → Str → Str) (formats : Formats)
      (provider : Option Str) (sheet : DeletableSheet) (files : List OrphanFile)
      (rows : List (List Cell)) (others : Str → List (List Cell)),
      (∀ file ∈ files, IsBucketName file.bucket) → (∀ file ∈ files, file.path ≠ []) →
      (∀ bucket key, ∀ c ∈ query bucket key, isSpace c = false) →
      sheet.write T env query formats provider files = .ok rows →
      HiddenColumnsIdle T env sheet others files rows := by
  intro h
  have hkey : ∀ file ∈ schoolOrphans "/a.png".toList, file.path ≠ [] := by decide
  have hidle := h Tables.ascii sgp1Env plainQuery plainFormats none .orphan
    (schoolOrphans "/a.png".toList) _ (fun _ ↦ []) (isBucketName_schoolOrphans _) hkey
    isSpace_plainQuery rfl
  have haddress := (hiddenColumnsIdle_iff_address (fun file ↦ signedUrl_ne_nil _ _)
    (isBucketName_schoolOrphans _) hkey).mp hidle _ List.mem_cons_self
  exact absurd haddress (by decide)

end StorageReconciler
