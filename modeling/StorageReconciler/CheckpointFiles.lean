import StorageReconciler.CheckpointSaves
import StorageReconciler.Checkpoints
import StorageReconciler.Foundations.AtomicFiles
import StorageReconciler.Foundations.Fallible
import StorageReconciler.Foundations.IsoTimestamps
import StorageReconciler.Foundations.Json

/-!
# Checkpoints as files

A checkpoint is the JSON text of its records, saved by way of a temporary file that is
then renamed.  However the saves of the workers interleave, are given up or end with the
process, and whatever is removed meanwhile, a file reads as the value that one save wrote
whole: the last one whose temporary file was renamed to it.
-/

namespace StorageReconciler

open Strings AtomicFiles IsoTimestamps

variable {ι : Type*} {α β : Type}

/-! ## Records -/

inductive LoadError where
  | fileNotFound
  | jsonDecode
  | keyError (name : Str)
  | valueError
  | typeError
  deriving DecidableEq

/-- `d[name]` -/
def Json.item (d : Json) (name : Str) : Except LoadError Json :=
  match d.get? name with
  | some v => .ok v
  | none => .error (.keyError name)

/-- The records hold values of these types; any other value is an error here at once. -/
def Json.asText : Json → Except LoadError Str
  | .str s => .ok s
  | _ => .error .typeError

def Json.asNat (v : Json) : Except LoadError ℕ :=
  match v.toNat? with
  | some n => .ok n
  | none => .error .typeError

def Json.asList : Json → Except LoadError (List Json)
  | .arr vs => .ok vs
  | _ => .error .typeError

def optionText : Option Str → Json
  | some s => .str s
  | none => .null

def storageObjectToDict (o : StorageObject) : Json :=
  .obj [("bucket".toList, .str o.bucket), ("key".toList, .str o.key),
    ("size".toList, .ofNat o.size),
    ("lastModified".toList, optionText (o.lastModified.map isoformat)),
    ("etag".toList, optionText o.etag)]

/-- `datetime.fromisoformat(d["lastModified"]) if d.get("lastModified") else None` -/
def lastModifiedFromDict (d : Json) : Except LoadError (Option DateTime) :=
  match d.get? "lastModified".toList with
  | some (.str (c :: s)) =>
      match fromisoformat (c :: s) with
      | some t => .ok (some t)
      | none => .error .valueError
  | some (.str []) | some .null | none => .ok none
  | some _ => .error .typeError

/-- `d.get("etag")` -/
def etagFromDict (d : Json) : Except LoadError (Option Str) :=
  match d.get? "etag".toList with
  | some (.str s) => .ok (some s)
  | some .null | none => .ok none
  | some _ => .error .typeError

def storageObjectFromDict (d : Json) : Except LoadError StorageObject := do
  let bucket ← (← d.item "bucket".toList).asText
  let key ← (← d.item "key".toList).asText
  let size ← (← d.item "size".toList).asNat
  let lastModified ← lastModifiedFromDict d
  let etag ← etagFromDict d
  return ⟨bucket, key, size, lastModified, etag⟩

/-- `json.dump` knows numbers and texts. -/
def idToJson : Option KeyValue → Option Json
  | none => some .null
  | some (.int n) => some (.ofInt n)
  | some (.text s) => some (.str s)
  | some _ => none

def idFromJson : Json → Except LoadError (Option KeyValue)
  | .null => .ok none
  | .str s => .ok (some (.text s))
  | v =>
      match v.toInt? with
      | some n => .ok (some (.int n))
      | none => .error .typeError

/-- The reference in a form that can be dumped, if it has one. -/
def dbReferenceToDict (ref : DbFileReference KeyValue) : Option Json :=
  (idToJson ref.id).map fun id ↦
    .obj [("table".toList, .str ref.table), ("column".toList, .str ref.column),
      ("id".toList, id), ("value".toList, .str ref.value)]

def dbReferenceFromDict (d : Json) : Except LoadError (DbFileReference KeyValue) := do
  let table ← (← d.item "table".toList).asText
  let column ← (← d.item "column".toList).asText
  let id ← idFromJson (← d.item "id".toList)
  let value ← (← d.item "value".toList).asText
  return ⟨table, column, id, value⟩

def referencesFromDicts (data : Json) : Except LoadError (List (DbFileReference KeyValue)) := do
  (← data.asList).mapM dbReferenceFromDict

def objectsFromDicts (data : Json) : Except LoadError (List StorageObject) := do
  (← data.asList).mapM storageObjectFromDict

def contentToDict (keys : List Str) (rowsScanned : ℕ) : Json :=
  .obj [("keys".toList, .arr (keys.map .str)), ("rowsScanned".toList, .ofNat rowsScanned)]

/-- `data.get("keys", [])` and `data.get("rowsScanned", 0)`, the keys as a set -/
def contentFromDict (d : Json) : Except LoadError (Finset Str × ℕ) := do
  let keys ← (d.get? "keys".toList).elim (.ok []) fun v ↦ do (← v.asList).mapM Json.asText
  let rowsScanned ← (d.get? "rowsScanned".toList).elim (.ok 0) Json.asNat
  return (keys.toFinset, rowsScanned)

/-! ## Loading and saving -/

inductive ItemKind where
  | mapping
  | bucket
  | content
  deriving DecidableEq

def ItemKind.text : ItemKind → Str
  | .mapping => "mapping".toList
  | .bucket => "bucket".toList
  | .content => "content".toList

/-- The file of an item, in the directory of its request. -/
def fileOf (kind : ItemKind) (f : ι × Str) : ι × Str :=
  (f.1, kind.text ++ "__".toList ++ f.2 ++ ".json".toList)

def itemPath (id : ι) (kind : ItemKind) (name : Str) : ι × Str := fileOf kind (id, safeName name)

/-- The file may be removed between the test whether it exists and its opening. -/
def readJson (atTest atOpen : Option Str) : Except LoadError (Option Json) :=
  match atTest, atOpen with
  | none, _ => .ok none
  | some _, none => .error .fileNotFound
  | some _, some text =>
      match Json.loads text with
      | some v => .ok (some v)
      | none => .error .jsonDecode

section Load

variable (atTest atOpen : ι × Str → Option Str) (id : ι)

/-- What is made of a file that there is. -/
def loadItem (kind : ItemKind) (name : Str) (decode : Json → Except LoadError α) :
    Except LoadError (Option α) :=
  match readJson (atTest (itemPath id kind name)) (atOpen (itemPath id kind name)) with
  | .error e => .error e
  | .ok none => .ok none
  | .ok (some data) => (decode data).map some

def loadMappingCheckpoint (name : Str) :
    Except LoadError (Option (List (DbFileReference KeyValue))) :=
  loadItem atTest atOpen id .mapping name referencesFromDicts

def loadBucketCheckpoint (name : Str) : Except LoadError (Option (List StorageObject)) :=
  loadItem atTest atOpen id .bucket name objectsFromDicts

def loadContentCheckpoint (name : Str) : Except LoadError (Option (Finset Str × ℕ)) :=
  loadItem atTest atOpen id .content name contentFromDict

end Load

/-- What a worker saves. -/
inductive Save (ι : Type*) where
  | mapping (id : ι) (mappingKey : Str) (refs : List (DbFileReference KeyValue))
  | bucket (id : ι) (bucket : Str) (objs : List StorageObject)
  | content (id : ι) (mappingKey : Str) (keys : List Str) (rowsScanned : ℕ)

def Save.path : Save ι → ι × Str
  | .mapping id name _ => itemPath id .mapping name
  | .bucket id name _ => itemPath id .bucket name
  | .content id name _ _ => itemPath id .content name

/-- What is dumped, unless dumping fails. -/
def Save.json : Save ι → Option Json
  | .mapping _ _ refs => (refs.mapM dbReferenceToDict).map .arr
  | .bucket _ _ objs => some (.arr (objs.map storageObjectToDict))
  | .content _ _ keys rowsScanned => some (contentToDict keys rowsScanned)

/-- The time stamps are moments. -/
def Save.IsTimed : Save ι → Prop
  | .bucket _ _ objs => ∀ o ∈ objs, ∀ t ∈ o.lastModified, IsMoment t
  | _ => True

def tempPath (path : ι × Str) (hex : Str) : ι × Str :=
  (path.1, path.2 ++ '.' :: (hex ++ ".tmp".toList))

/-- `_write_json_atomic`; of records that cannot be dumped some front part is written. -/
structure IsSaveWrite (w : Write (Save ι) (ι × Str) Char) : Prop where
  timed : w.value.IsTimed
  target : w.target = w.value.path
  temp : ∃ hex, w.temp = tempPath w.value.path hex
  ends : w.ends = w.value.json.isSome
  text : ∀ v, w.value.json = some v → w.text = v.dumps

/-! ## Checkpoints that change at once -/

def Save.HasReferences (refs : List (DbFileReference KeyValue)) : Save ι → Prop
  | .mapping _ _ refs' => refs' = refs
  | _ => False

def Save.HasObjects (objs : List StorageObject) : Save ι → Prop
  | .bucket _ _ objs' => objs' = objs
  | _ => False

/-- The keys are read as a set. -/
def Save.HasContent (content : Finset Str × ℕ) : Save ι → Prop
  | .content _ _ keys rowsScanned => (keys.toFinset, rowsScanned) = content
  | _ => False

/-- Such a save has been put in place of the file. -/
def SavedIn (events : List (Event (Save ι) (ι × Str) Char)) (path : ι × Str)
    (has : Save ι → Prop) : Prop :=
  ∃ w, Event.put w ∈ events ∧ w.value.path = path ∧ has w.value

/-- A load reads nothing, or what was saved; or the file is gone when it is opened. -/
inductive Reads (saved : α → Prop) (removed : Prop) : Except LoadError (Option α) → Prop where
  | nothing : Reads saved removed (.ok none)
  | saved {a : α} (h : saved a) : Reads saved removed (.ok (some a))
  | gone (h : removed) : Reads saved removed (.error .fileNotFound)

namespace Checkpoints

section After

variable [DecidableEq ι]

def put (save : Save ι) (c : Checkpoints ι KeyValue) : Checkpoints ι KeyValue :=
  match save with
  | .mapping id name refs =>
      { c with mapping := Function.update c.mapping (id, safeName name) (some refs) }
  | .bucket id name objs =>
      { c with bucket := Function.update c.bucket (id, safeName name) (some objs) }
  | .content id name keys rowsScanned =>
      { c with
        content := Function.update c.content (id, safeName name)
          (some (keys.toFinset, rowsScanned)) }

/-- The item whose file this is has none. -/
def dropFile (path : ι × Str) (kind : ItemKind) (files : ι × Str → Option β) :
    ι × Str → Option β :=
  fun f ↦ if fileOf kind f = path then none else files f

def drop (path : ι × Str) (c : Checkpoints ι KeyValue) : Checkpoints ι KeyValue where
  mapping := dropFile path .mapping c.mapping
  bucket := dropFile path .bucket c.bucket
  content := dropFile path .content c.content

def apply (c : Checkpoints ι KeyValue) :
    Event (Save ι) (ι × Str) Char → Checkpoints ι KeyValue
  | .put w => put w.value c
  | .remove path => drop path c

/-- The checkpoints when each save is made at one moment. -/
def after (c : Checkpoints ι KeyValue) (events : List (Event (Save ι) (ι × Str) Char)) :
    Checkpoints ι KeyValue :=
  events.foldl apply c

end After

end Checkpoints

/-! ## Records that are read back -/

theorem Json.item_self (name : Str) (v : Json) (members : List (Str × Json)) :
    (Json.obj ((name, v) :: members)).item name = .ok v := by
  rw [Json.item, Json.get?, List.find?_cons_of_pos (by simp)]
  rfl

theorem Json.get?_of_ne {name other : Str} (h : other ≠ name) (v : Json)
    (members : List (Str × Json)) :
    (Json.obj ((other, v) :: members)).get? name = (Json.obj members).get? name := by
  rw [Json.get?, Json.get?, List.find?_cons_of_neg (by simpa using h)]

theorem Json.get?_self (name : Str) (v : Json) (members : List (Str × Json)) :
    (Json.obj ((name, v) :: members)).get? name = some v := by
  rw [Json.get?, List.find?_cons_of_pos (by simp)]
  rfl

theorem Json.item_of_ne {name other : Str} (h : other ≠ name) (v : Json)
    (members : List (Str × Json)) :
    (Json.obj ((other, v) :: members)).item name = (Json.obj members).item name := by
  rw [Json.item, Json.item, Json.get?_of_ne h]

theorem Json.asNat_ofNat (n : ℕ) : (Json.ofNat n).asNat = .ok n := by
  rw [Json.asNat, Json.toNat?_ofNat]

theorem storageObjectFromDict_toDict {o : StorageObject} (h : ∀ t ∈ o.lastModified, IsMoment t) :
    storageObjectFromDict (storageObjectToDict o) = .ok o := by
  have hmodified : lastModifiedFromDict (storageObjectToDict o) = .ok o.lastModified := by
    unfold lastModifiedFromDict storageObjectToDict
    rw [Json.get?_of_ne (by decide), Json.get?_of_ne (by decide), Json.get?_of_ne (by decide),
      Json.get?_self]
    cases hlast : o.lastModified with
    | none => rfl
    | some t =>
        have hread := fromisoformat_isoformat (h t hlast)
        obtain ⟨c, s, hs⟩ := List.exists_cons_of_ne_nil (isoformat_ne_nil t)
        rw [hs] at hread
        simp only [Option.map_some, optionText, hs, hread]
  have hetag : etagFromDict (storageObjectToDict o) = .ok o.etag := by
    unfold etagFromDict storageObjectToDict
    rw [Json.get?_of_ne (by decide), Json.get?_of_ne (by decide), Json.get?_of_ne (by decide),
      Json.get?_of_ne (by decide), Json.get?_self]
    cases o.etag <;> rfl
  have hsize : (storageObjectToDict o).item "size".toList = .ok (.ofNat o.size) := by
    unfold storageObjectToDict
    rw [Json.item_of_ne (by decide), Json.item_of_ne (by decide), Json.item_self]
  have hkey : (storageObjectToDict o).item "key".toList = .ok (.str o.key) := by
    unfold storageObjectToDict
    rw [Json.item_of_ne (by decide), Json.item_self]
  have hbucket : (storageObjectToDict o).item "bucket".toList = .ok (.str o.bucket) :=
    Json.item_self _ _ _
  simp only [storageObjectFromDict, hbucket, hkey, hsize, hmodified, hetag, Json.asText,
    Json.asNat_ofNat, bind, Except.bind, pure, Except.pure]

theorem idFromJson_toJson {id : Option KeyValue} {v : Json} (h : idToJson id = some v) :
    idFromJson v = .ok id := by
  cases id with
  | none =>
      obtain rfl : Json.null = v := Option.some.inj h
      rfl
  | some k =>
      cases k with
      | int n =>
          obtain rfl : Json.ofInt n = v := Option.some.inj h
          have hread := Json.toInt?_ofInt n
          cases n <;> simp only [Json.ofInt, Json.ofNat, idFromJson] at hread ⊢ <;> rw [hread]
      | text s =>
          obtain rfl : Json.str s = v := Option.some.inj h
          rfl
      | bytes codes => cases h
      | decimal digits scale => cases h
      | date day => cases h

/-- A reference can be dumped unless `json.dump` refuses its id. -/
theorem idToJson_isSome_iff (id : Option KeyValue) :
    (idToJson id).isSome = true ↔ ∀ k ∈ id, jsonError k = none := by
  cases id with
  | none => simp [idToJson]
  | some k => cases k <;> simp [idToJson, jsonError]

theorem dbReferenceFromDict_toDict {ref : DbFileReference KeyValue} {v : Json}
    (h : dbReferenceToDict ref = some v) : dbReferenceFromDict v = .ok ref := by
  obtain ⟨id, hid, rfl⟩ := Option.map_eq_some_iff.mp h
  have hread := idFromJson_toJson hid
  simp only [dbReferenceFromDict]
  rw [Json.item_self, Json.item_of_ne (by decide), Json.item_self, Json.item_of_ne (by decide),
    Json.item_of_ne (by decide), Json.item_self, Json.item_of_ne (by decide),
    Json.item_of_ne (by decide), Json.item_of_ne (by decide), Json.item_self]
  simp only [Json.asText, hread, bind, Except.bind, pure, Except.pure]

theorem contentFromDict_toDict (keys : List Str) (rowsScanned : ℕ) :
    contentFromDict (contentToDict keys rowsScanned) = .ok (keys.toFinset, rowsScanned) := by
  have hkeys : (keys.map Json.str).mapM Json.asText = .ok keys :=
    Fallible.mapM_map_of_forall fun _ _ ↦ rfl
  unfold contentFromDict contentToDict
  rw [Json.get?_self, Json.get?_of_ne (by decide), Json.get?_self]
  simp only [Option.elim, Json.asList, hkeys, Json.asNat_ofNat, bind, Except.bind, pure,
    Except.pure]

/-! ## Texts that are read back -/

theorem optionText_distinct (s : Option Str) : (optionText s).Distinct := by
  cases s <;> trivial

theorem storageObjectToDict_distinct (o : StorageObject) : (storageObjectToDict o).Distinct :=
  ⟨by simp only [List.map_cons, List.map_nil]; decide, trivial, trivial, trivial,
    optionText_distinct _, optionText_distinct _, trivial⟩

theorem idToJson_distinct {id : Option KeyValue} {v : Json} (h : idToJson id = some v) :
    v.Distinct := by
  cases id with
  | none =>
      obtain rfl : Json.null = v := Option.some.inj h
      trivial
  | some k =>
      cases k with
      | int n =>
          obtain rfl : Json.ofInt n = v := Option.some.inj h
          cases n <;> trivial
      | text s =>
          obtain rfl : Json.str s = v := Option.some.inj h
          trivial
      | bytes codes => cases h
      | decimal digits scale => cases h
      | date day => cases h

theorem dbReferenceToDict_distinct {ref : DbFileReference KeyValue} {v : Json}
    (h : dbReferenceToDict ref = some v) : v.Distinct := by
  obtain ⟨id, hid, rfl⟩ := Option.map_eq_some_iff.mp h
  exact ⟨by simp only [List.map_cons, List.map_nil]; decide, trivial, trivial,
    idToJson_distinct hid, trivial, trivial⟩

/-- What a file says of an item's data, by the JSON value that the text stands for. -/
def IsReadBack (R : α → Json → Prop) (decode : Json → Except LoadError α) : Prop :=
  ∀ a v, R a v → v.Distinct ∧ decode v = .ok a

def MappingJson (refs : List (DbFileReference KeyValue)) (v : Json) : Prop :=
  ∃ vs, refs.mapM dbReferenceToDict = some vs ∧ v = .arr vs

def BucketJson (objs : List StorageObject) (v : Json) : Prop :=
  (∀ o ∈ objs, ∀ t ∈ o.lastModified, IsMoment t) ∧ v = .arr (objs.map storageObjectToDict)

def ContentJson (content : Finset Str × ℕ) (v : Json) : Prop :=
  ∃ keys : List Str, keys.toFinset = content.1 ∧ v = contentToDict keys content.2

theorem distinctElements_of_forall {vs : List Json} (h : ∀ v ∈ vs, v.Distinct) :
    Json.DistinctElements vs := by
  induction vs with
  | nil => trivial
  | cons v vs ih =>
      exact ⟨h v List.mem_cons_self, ih fun w hw ↦ h w (List.mem_cons_of_mem v hw)⟩

theorem mappingJson_isReadBack : IsReadBack MappingJson referencesFromDicts := by
  rintro refs v ⟨vs, hvs, rfl⟩
  refine ⟨distinctElements_of_forall fun v hv ↦ ?_, ?_⟩
  · obtain ⟨ref, _, href⟩ := (Fallible.mem_of_mapM_eq_some hvs).mp hv
    exact dbReferenceToDict_distinct href
  · exact Fallible.mapM_of_mapM_eq_some (fun ref _ v hv ↦ dbReferenceFromDict_toDict hv) hvs

theorem bucketJson_isReadBack : IsReadBack BucketJson objectsFromDicts := by
  rintro objs v ⟨hmoments, rfl⟩
  refine ⟨distinctElements_of_forall fun v hv ↦ ?_, ?_⟩
  · obtain ⟨o, _, rfl⟩ := List.mem_map.mp hv
    exact storageObjectToDict_distinct o
  · exact Fallible.mapM_map_of_forall fun o ho ↦ storageObjectFromDict_toDict (hmoments o ho)

theorem contentJson_isReadBack : IsReadBack ContentJson contentFromDict := by
  rintro ⟨_, rowsScanned⟩ v ⟨keys, rfl, rfl⟩
  refine ⟨⟨by simp only [List.map_cons, List.map_nil]; decide, ?_, trivial, trivial⟩, ?_⟩
  · apply distinctElements_of_forall
    intro v hv
    obtain ⟨_, _, rfl⟩ := List.mem_map.mp hv
    trivial
  · exact contentFromDict_toDict keys rowsScanned

/-! ## Files -/

theorem ItemKind.eq_of_text {k k' : ItemKind} {s t : Str} (h : k.text ++ s = k'.text ++ t) :
    k = k' := by
  have hnil : ∀ k : ItemKind, k.text ≠ [] := by
    intro k
    cases k <;> decide
  have hhead := congrArg List.head? h
  rw [List.head?_append_of_ne_nil _ (hnil k), List.head?_append_of_ne_nil _ (hnil k')] at hhead
  cases k <;> cases k' <;> first | rfl | exact absurd hhead (by decide)

theorem fileOf_inj {k k' : ItemKind} {f f' : ι × Str} (h : fileOf k f = fileOf k' f') :
    k = k' ∧ f = f' := by
  obtain ⟨hid, hname⟩ := Prod.mk.inj h
  rw [List.append_assoc, List.append_assoc, List.append_assoc, List.append_assoc] at hname
  obtain rfl := ItemKind.eq_of_text hname
  exact ⟨rfl, Prod.ext hid (List.append_cancel_right
    (List.append_cancel_left (List.append_cancel_left hname)))⟩

def isTemp (path : ι × Str) : Prop := ∃ front, path.2 = front ++ ".tmp".toList

theorem fileOf_not_isTemp (k : ItemKind) (f : ι × Str) : ¬isTemp (fileOf k f) := by
  rintro ⟨front, h⟩
  have hlast := congrArg List.getLast? h
  rw [fileOf, List.getLast?_append_of_ne_nil _ (by decide),
    List.getLast?_append_of_ne_nil _ (by decide)] at hlast
  exact absurd hlast (by decide)

theorem Save.exists_path (save : Save ι) : ∃ k f, save.path = fileOf k f := by
  cases save with
  | mapping id name refs => exact ⟨.mapping, _, rfl⟩
  | bucket id name objs => exact ⟨.bucket, _, rfl⟩
  | content id name keys rowsScanned => exact ⟨.content, _, rfl⟩

theorem isSaveWrite_apart (w : Write (Save ι) (ι × Str) Char) (h : IsSaveWrite w) :
    isTemp w.temp ∧ ¬isTemp w.target := by
  constructor
  · obtain ⟨hex, htemp⟩ := h.temp
    refine ⟨w.value.path.2 ++ '.' :: hex, ?_⟩
    rw [htemp, tempPath, List.append_assoc]
    rfl
  · obtain ⟨k, f, hpath⟩ := w.value.exists_path
    rw [h.target, hpath]
    exact fileOf_not_isTemp k f

/-! ## Files that show checkpoints -/

/-- The file of an item holds the text of what its checkpoint holds. -/
inductive FileShows (R : α → Json → Prop) : Option Str → Option α → Prop where
  | absent : FileShows R none none
  | present {a : α} {v : Json} (h : R a v) : FileShows R (some v.dumps) (some a)

def KindShows (R : α → Json → Prop) (kind : ItemKind) (files : ι × Str → Option Str)
    (c : ι × Str → Option α) : Prop :=
  ∀ f, FileShows R (files (fileOf kind f)) (c f)

structure FilesShow (files : ι × Str → Option Str) (c : Checkpoints ι KeyValue) : Prop where
  mapping : KindShows MappingJson .mapping files c.mapping
  bucket : KindShows BucketJson .bucket files c.bucket
  content : KindShows ContentJson .content files c.content

/-- What a load makes of what the checkpoint was at its two moments. -/
def loaded (atTest atOpen : Option α) : Except LoadError (Option α) :=
  match atTest, atOpen with
  | none, _ => .ok none
  | some _, none => .error .fileNotFound
  | some _, some a => .ok (some a)

section Shows

variable {R : α → Json → Prop} {kind : ItemKind} {files files' : ι × Str → Option Str}
  {c c' : ι × Str → Option α}

theorem KindShows.loadItem {decode : Json → Except LoadError α} (hR : IsReadBack R decode)
    (h : KindShows R kind files c) (h' : KindShows R kind files' c') (id : ι) (name : Str) :
    loadItem files files' id kind name decode =
      loaded (c (id, safeName name)) (c' (id, safeName name)) := by
  have hfile := h (id, safeName name)
  have hfile' := h' (id, safeName name)
  rw [StorageReconciler.loadItem, itemPath]
  generalize files (fileOf kind (id, safeName name)) = text, c (id, safeName name) = value at *
  generalize files' (fileOf kind (id, safeName name)) = text', c' (id, safeName name) = value' at *
  cases hfile with
  | absent => rfl
  | present _ =>
      cases hfile' with
      | absent => rfl
      | present hv =>
          obtain ⟨hdistinct, hdecode⟩ := hR _ _ hv
          rw [readJson, Json.loads_dumps hdistinct]
          simp only [hdecode, Except.map, loaded]

variable [DecidableEq ι]

theorem KindShows.put {a : α} {v : Json} {f : ι × Str} (h : KindShows R kind files c)
    (hv : R a v) :
    KindShows R kind (Function.update files (fileOf kind f) (some v.dumps))
      (Function.update c f (some a)) := by
  intro g
  by_cases hg : g = f
  · subst hg
    rw [Function.update_self, Function.update_self]
    exact .present hv
  · have hfile : fileOf kind g ≠ fileOf kind f := fun heq ↦ hg (fileOf_inj heq).2
    rw [Function.update_of_ne hfile, Function.update_of_ne hg]
    exact h g

theorem KindShows.put_other {kind' : ItemKind} (hkind : kind ≠ kind') {f : ι × Str}
    {text : Option Str} (h : KindShows R kind files c) :
    KindShows R kind (Function.update files (fileOf kind' f) text) c := by
  intro g
  have hfile : fileOf kind g ≠ fileOf kind' f := fun heq ↦ hkind (fileOf_inj heq).1
  rw [Function.update_of_ne hfile]
  exact h g

theorem KindShows.drop {path : ι × Str} (h : KindShows R kind files c) :
    KindShows R kind (Function.update files path none) (Checkpoints.dropFile path kind c) := by
  intro g
  rw [Checkpoints.dropFile]
  split_ifs with hg
  · rw [hg, Function.update_self]
    exact .absent
  · rw [Function.update_of_ne hg]
    exact h g

end Shows

/-! ## Refinement -/

section Refinement

variable [DecidableEq ι] {files : ι × Str → Option Str} {c : Checkpoints ι KeyValue}
  {events later : List (Event (Save ι) (ι × Str) Char)}

theorem FilesShow.put {w : Write (Save ι) (ι × Str) Char} (h : FilesShow files c)
    (hwrite : IsSaveWrite w) (hends : w.ends = true) :
    FilesShow (Function.update files w.target (some w.text)) (c.put w.value) := by
  obtain ⟨htimed, htarget, _, hsome, htext⟩ := hwrite
  obtain ⟨v, hv⟩ := Option.isSome_iff_exists.mp (hsome.symm.trans hends)
  rw [htarget, htext v hv]
  generalize w.value = save at *
  cases save with
  | mapping id name refs =>
      obtain ⟨vs, hvs, rfl⟩ := Option.map_eq_some_iff.mp hv
      refine ⟨h.mapping.put ⟨vs, hvs, rfl⟩, ?_, ?_⟩
      · exact h.bucket.put_other (by decide)
      · exact h.content.put_other (by decide)
  | bucket id name objs =>
      obtain rfl := Option.some.inj hv
      refine ⟨?_, h.bucket.put ⟨htimed, rfl⟩, ?_⟩
      · exact h.mapping.put_other (by decide)
      · exact h.content.put_other (by decide)
  | content id name keys rowsScanned =>
      obtain rfl := Option.some.inj hv
      refine ⟨?_, ?_, h.content.put ⟨keys, rfl, rfl⟩⟩
      · exact h.mapping.put_other (by decide)
      · exact h.bucket.put_other (by decide)

theorem FilesShow.apply {e : Event (Save ι) (ι × Str) Char} (h : FilesShow files c)
    (he : e.IsOf IsSaveWrite) : FilesShow (e.apply files) (c.apply e) := by
  cases e with
  | put w => exact h.put he.1 he.2
  | remove path => exact ⟨h.mapping.drop, h.bucket.drop, h.content.drop⟩

theorem FilesShow.after (h : FilesShow files c) (hevents : ∀ e ∈ events, e.IsOf IsSaveWrite) :
    FilesShow (filesAfter files events) (c.after events) := by
  induction events generalizing files c with
  | nil => exact h
  | cons e events ih =>
      have he := h.apply (hevents e List.mem_cons_self)
      exact ih he fun e' he' ↦ hevents e' (List.mem_cons_of_mem e he')

omit [DecidableEq ι] in
theorem FilesShow.empty : FilesShow (fun _ ↦ none) (.empty : Checkpoints ι KeyValue) :=
  ⟨fun _ ↦ .absent, fun _ ↦ .absent, fun _ ↦ .absent⟩

omit [DecidableEq ι] in
theorem FilesShow.ofDisk {s : Disk (Save ι) (ι × Str) Char} (hshows : s.Shows isTemp files)
    (h : FilesShow files c) : FilesShow s.files c := by
  have hfiles : ∀ (kind : ItemKind) (f : ι × Str),
      s.files (fileOf kind f) = files (fileOf kind f) := fun kind f ↦
    hshows _ (fileOf_not_isTemp kind f)
  exact ⟨fun f ↦ hfiles _ f ▸ h.mapping f, fun f ↦ hfiles _ f ▸ h.bucket f,
    fun f ↦ hfiles _ f ▸ h.content f⟩

/-- The files of a run show the checkpoints of its saves, at every moment. -/
theorem FilesShow.ofRun {s : Disk (Save ι) (ι × Str) Char}
    (hrun : Disk.Run IsSaveWrite (.start fun _ ↦ none) events s) :
    FilesShow s.files (Checkpoints.empty.after events) := by
  have hstart : (Disk.start fun _ ↦ none : Disk (Save ι) (ι × Str) Char).Sound IsSaveWrite :=
    Disk.sound_start _
  have hshows := hrun.shows isSaveWrite_apart hstart (Disk.shows_start _)
  have hevents := hrun.isOf isSaveWrite_apart hstart
  exact (FilesShow.empty.after hevents).ofDisk hshows

/-! ## Whose records are read -/

/-- One of the three kinds of item: a save sets the checkpoint of its own file. -/
structure IsPart (kind : ItemKind) (part : Checkpoints ι KeyValue → ι × Str → Option α)
    (has : α → Save ι → Prop) : Prop where
  put : ∀ save, (∀ c, part (c.put save) = part c) ∨ ∃ f a, save.path = fileOf kind f ∧
    has a save ∧ ∀ c, part (c.put save) = Function.update (part c) f (some a)
  drop : ∀ path c f, part (c.drop path) f = if fileOf kind f = path then none else part c f

theorem mapping_isPart :
    IsPart .mapping (fun c : Checkpoints ι KeyValue ↦ c.mapping) Save.HasReferences where
  put save := by
    cases save with
    | mapping id name refs => exact .inr ⟨_, refs, rfl, rfl, fun _ ↦ rfl⟩
    | bucket | content => exact .inl fun _ ↦ rfl
  drop _ _ _ := rfl

theorem bucket_isPart :
    IsPart .bucket (fun c : Checkpoints ι KeyValue ↦ c.bucket) Save.HasObjects where
  put save := by
    cases save with
    | bucket id name objs => exact .inr ⟨_, objs, rfl, rfl, fun _ ↦ rfl⟩
    | mapping | content => exact .inl fun _ ↦ rfl
  drop _ _ _ := rfl

theorem content_isPart :
    IsPart .content (fun c : Checkpoints ι KeyValue ↦ c.content) Save.HasContent where
  put save := by
    cases save with
    | content id name keys rowsScanned => exact .inr ⟨_, _, rfl, rfl, fun _ ↦ rfl⟩
    | mapping | bucket => exact .inl fun _ ↦ rfl
  drop _ _ _ := rfl

section Part

variable {kind : ItemKind} {part : Checkpoints ι KeyValue → ι × Str → Option α}
  {has : α → Save ι → Prop} {f : ι × Str} {a : α}

theorem IsPart.put_cases (hpart : IsPart kind part has) (save : Save ι)
    (c : Checkpoints ι KeyValue) (f : ι × Str) :
    part (c.put save) f = part c f ∨
      save.path = fileOf kind f ∧ ∃ a, part (c.put save) f = some a ∧ has a save := by
  obtain hsame | ⟨g, a, hpath, hhas, hupdate⟩ := hpart.put save
  · exact .inl (congrFun (hsame c) f)
  · rw [hupdate c]
    by_cases hf : f = g
    · subst hf
      exact .inr ⟨hpath, a, Function.update_self .., hhas⟩
    · exact .inl (Function.update_of_ne hf _ _)

/-- What an item holds after the events was saved in them, or was there before. -/
theorem IsPart.saved (hpart : IsPart kind part has) (h : part (c.after events) f = some a) :
    part c f = some a ∨ SavedIn events (fileOf kind f) (has a) := by
  induction events using List.reverseRecOn with
  | nil => exact .inl h
  | append_singleton events e ih =>
      rw [Checkpoints.after, List.foldl_append] at h
      change part ((c.after events).apply e) f = some a at h
      have hearlier : part (c.after events) f = some a →
          part c f = some a ∨ SavedIn (events ++ [e]) (fileOf kind f) (has a) := by
        intro hbefore
        obtain hstart | ⟨w, hw, hwrite⟩ := ih hbefore
        · exact .inl hstart
        · exact .inr ⟨w, List.mem_append_left _ hw, hwrite⟩
      cases e with
      | put w =>
          obtain hsame | ⟨hpath, a', ha', hhas⟩ := hpart.put_cases w.value (c.after events) f
          · exact hearlier (hsame.symm.trans h)
          · obtain rfl : a' = a := Option.some.inj (ha'.symm.trans h)
            exact .inr ⟨w, List.mem_append_right _ List.mem_cons_self, hpath, hhas⟩
      | remove path =>
          change part ((c.after events).drop path) f = some a at h
          rw [hpart.drop] at h
          split_ifs at h with hfile
          exact hearlier h

/-- An item loses its checkpoint only when its file is removed. -/
theorem IsPart.removed (hpart : IsPart kind part has) (hstart : part c f = some a)
    (h : part (c.after events) f = none) : Event.remove (fileOf kind f) ∈ events := by
  induction events generalizing c a with
  | nil => exact absurd (hstart.symm.trans h) (Option.some_ne_none a)
  | cons e events ih =>
      change part ((c.apply e).after events) f = none at h
      cases hnext : part (c.apply e) f with
      | some a' => exact List.mem_cons_of_mem e (ih hnext h)
      | none =>
          cases e with
          | put w =>
              obtain hsame | ⟨_, a', ha', _⟩ := hpart.put_cases w.value c f
              · exact absurd (hstart.symm.trans (hsame.symm.trans hnext)) (Option.some_ne_none a)
              · exact absurd (ha'.symm.trans hnext) (Option.some_ne_none a')
          | remove path =>
              change part (c.drop path) f = none at hnext
              rw [hpart.drop] at hnext
              split_ifs at hnext with hfile
              · rw [hfile]
                exact List.mem_cons_self
              · exact absurd (hstart.symm.trans hnext) (Option.some_ne_none a)

theorem IsPart.reads (hpart : IsPart kind part has) (hempty : part .empty f = none) :
    Reads (fun a ↦ SavedIn (events ++ later) (fileOf kind f) (has a))
      (Event.remove (fileOf kind f) ∈ later)
      (loaded (part (Checkpoints.empty.after events) f)
        (part (Checkpoints.empty.after (events ++ later)) f)) := by
  have hafter : (Checkpoints.empty : Checkpoints ι KeyValue).after (events ++ later) =
      (Checkpoints.empty.after events).after later := List.foldl_append
  cases htest : part (Checkpoints.empty.after events) f with
  | none => exact .nothing
  | some a =>
      cases hopen : part (Checkpoints.empty.after (events ++ later)) f with
      | none =>
          rw [hafter] at hopen
          exact .gone (hpart.removed htest hopen)
      | some a' =>
          obtain hstart | hsaved := hpart.saved hopen
          · exact absurd (hempty.symm.trans hstart) (Option.some_ne_none a').symm
          · exact .saved hsaved

end Part

/-- Saves side by side, given up at any moment, with the process ending and files being
removed, are seen by every load as if each had been made at the moment of its renaming or
not at all; and what a load reads is what one of them wrote whole. -/
theorem checkpointFiles_refine {s s' : Disk (Save ι) (ι × Str) Char}
    (hrun : Disk.Run IsSaveWrite (.start fun _ ↦ none) events s)
    (hlater : Disk.Run IsSaveWrite s later s') (id : ι) (name : Str) :
    (loadMappingCheckpoint s.files s'.files id name =
        loaded ((Checkpoints.empty.after events).mapping (id, safeName name))
          ((Checkpoints.empty.after (events ++ later)).mapping (id, safeName name)) ∧
      loadBucketCheckpoint s.files s'.files id name =
        loaded ((Checkpoints.empty.after events).bucket (id, safeName name))
          ((Checkpoints.empty.after (events ++ later)).bucket (id, safeName name)) ∧
      loadContentCheckpoint s.files s'.files id name =
        loaded ((Checkpoints.empty.after events).content (id, safeName name))
          ((Checkpoints.empty.after (events ++ later)).content (id, safeName name))) ∧
    Reads (fun refs ↦ SavedIn (events ++ later) (itemPath id .mapping name)
        (Save.HasReferences refs)) (Event.remove (itemPath id .mapping name) ∈ later)
      (loadMappingCheckpoint s.files s'.files id name) ∧
    Reads (fun objs ↦ SavedIn (events ++ later) (itemPath id .bucket name)
        (Save.HasObjects objs)) (Event.remove (itemPath id .bucket name) ∈ later)
      (loadBucketCheckpoint s.files s'.files id name) ∧
    Reads (fun content ↦ SavedIn (events ++ later) (itemPath id .content name)
        (Save.HasContent content)) (Event.remove (itemPath id .content name) ∈ later)
      (loadContentCheckpoint s.files s'.files id name) := by
  have hfiles := FilesShow.ofRun hrun
  have hfiles' := FilesShow.ofRun (hrun.trans hlater)
  have hmapping : loadMappingCheckpoint s.files s'.files id name = _ :=
    hfiles.mapping.loadItem mappingJson_isReadBack hfiles'.mapping id name
  have hbucket : loadBucketCheckpoint s.files s'.files id name = _ :=
    hfiles.bucket.loadItem bucketJson_isReadBack hfiles'.bucket id name
  have hcontent : loadContentCheckpoint s.files s'.files id name = _ :=
    hfiles.content.loadItem contentJson_isReadBack hfiles'.content id name
  refine ⟨⟨hmapping, hbucket, hcontent⟩, ?_, ?_, ?_⟩
  · rw [hmapping]
    exact mapping_isPart.reads rfl
  · rw [hbucket]
    exact bucket_isPart.reads rfl
  · rw [hcontent]
    exact content_isPart.reads rfl

end Refinement

def schoolPhoto : StorageObject :=
  ⟨"scola".toList, "a.png".toList, 5, some (Fields.number ⟨2024, 1, 2, 3, 4, 5, 0⟩), none⟩

/-- A listing of one photo, of a winter morning. -/
def firstListing : Save ℕ := .bucket 7 "scola".toList [schoolPhoto]

/-- The listing of a run that found a second photo. -/
def secondListing : Save ℕ :=
  .bucket 7 "scola".toList [schoolPhoto, { schoolPhoto with key := "b.png".toList }]

def writeOf (save : Save ℕ) (hex : Str) : Write (Save ℕ) (ℕ × Str) Char where
  value := save
  target := save.path
  temp := tempPath save.path hex
  text := (save.json.map Json.dumps).getD []
  ends := save.json.isSome

def firstWrite : Write (Save ℕ) (ℕ × Str) Char := writeOf firstListing "a1".toList

def secondWrite : Write (Save ℕ) (ℕ × Str) Char := writeOf secondListing "b2".toList

theorem isSaveWrite_writeOf {save : Save ℕ} (hex : Str) (h : save.IsTimed) :
    IsSaveWrite (writeOf save hex) where
  timed := h
  target := rfl
  temp := ⟨hex, rfl⟩
  ends := rfl
  text := by
    intro v hv
    change save.json = some v at hv
    rw [writeOf, hv]
    rfl

theorem schoolPhoto_timed : ∀ t ∈ schoolPhoto.lastModified, IsMoment t := by
  intro t ht
  obtain rfl := Option.some.inj ht
  exact ⟨⟨2024, 1, 2, 3, 4, 5, 0⟩, by decide, rfl⟩

theorem firstWrite_isSaveWrite : IsSaveWrite firstWrite := by
  apply isSaveWrite_writeOf
  intro o ho
  obtain rfl := List.mem_singleton.mp ho
  exact schoolPhoto_timed

theorem secondWrite_isSaveWrite : IsSaveWrite secondWrite := by
  apply isSaveWrite_writeOf
  intro o ho
  rcases List.mem_pair.mp ho with rfl | rfl <;> exact schoolPhoto_timed

/-- Both listings are being written. -/
def bothBegun : ℕ × Str → Option Str :=
  Function.update (Function.update (fun _ ↦ none) firstWrite.temp (some []))
    secondWrite.temp (some [])

/-- Nine characters of the second listing and all of the first one are written. -/
def bothWritten : ℕ × Str → Option Str :=
  appendTo firstWrite.temp (firstWrite.text.take firstWrite.text.length)
    (appendTo secondWrite.temp (secondWrite.text.take 9) bothBegun)

/-- The process ended after the first listing was put in place. -/
def crashedDisk : Disk (Save ℕ) (ℕ × Str) Char where
  files := Function.update (Function.update bothWritten firstWrite.target
    (some firstWrite.text)) firstWrite.temp none
  active := []

/-- The checkpoint is cleared afterwards. -/
def clearedDisk : Disk (Save ℕ) (ℕ × Str) Char where
  files := Function.update crashedDisk.files firstListing.path none
  active := []

theorem bothWritten_first : bothWritten firstWrite.temp = some firstWrite.text := by
  have htemp : firstWrite.temp ≠ secondWrite.temp := by decide
  have hbegun : bothBegun firstWrite.temp = some [] :=
    (Function.update_of_ne htemp _ _).trans (Function.update_self ..)
  have hthere : appendTo secondWrite.temp (secondWrite.text.take 9) bothBegun firstWrite.temp =
      some [] := (appendTo_of_ne htemp).trans hbegun
  rw [bothWritten, appendTo, if_pos ⟨rfl, by rw [hthere]; rfl⟩, List.take_length]

theorem crashedDisk_reached :
    Disk.Run IsSaveWrite (.start fun _ ↦ none) [.put firstWrite] crashedDisk := by
  have htemp : firstWrite.temp ≠ secondWrite.temp := by decide
  have hlong : 9 ≤ secondWrite.text.length := by decide +kernel
  have hfirst : Disk.Step IsSaveWrite (.start fun _ ↦ none) []
      ⟨Function.update (fun _ ↦ none) firstWrite.temp (some []), [(firstWrite, 0)]⟩ :=
    .create firstWrite_isSaveWrite rfl fun _ ha ↦ absurd ha List.not_mem_nil
  have hsecond : Disk.Step IsSaveWrite
      ⟨Function.update (fun _ ↦ none) firstWrite.temp (some []), [(firstWrite, 0)]⟩ []
      ⟨bothBegun, [(secondWrite, 0), (firstWrite, 0)]⟩ := by
    apply Disk.Step.create secondWrite_isSaveWrite
    · exact Function.update_of_ne htemp.symm (some []) fun _ ↦ none
    · intro a ha
      obtain rfl := List.mem_singleton.mp ha
      exact htemp
  have hsome : Disk.Step IsSaveWrite
      ⟨bothBegun, [] ++ (secondWrite, 0) :: [(firstWrite, 0)]⟩ []
      ⟨appendTo secondWrite.temp (secondWrite.text.take 9) bothBegun,
        [] ++ (secondWrite, 9) :: [(firstWrite, 0)]⟩ :=
    .append (Nat.zero_le 9) hlong
  have hwhole : Disk.Step IsSaveWrite
      ⟨appendTo secondWrite.temp (secondWrite.text.take 9) bothBegun,
        [(secondWrite, 9)] ++ (firstWrite, 0) :: []⟩ []
      ⟨bothWritten, [(secondWrite, 9)] ++ (firstWrite, firstWrite.text.length) :: []⟩ :=
    .append (Nat.zero_le _) le_rfl
  have hrename : Disk.Step IsSaveWrite
      ⟨bothWritten, [(secondWrite, 9)] ++ (firstWrite, firstWrite.text.length) :: []⟩
      [.put firstWrite] ⟨crashedDisk.files, [(secondWrite, 9)] ++ []⟩ :=
    .rename rfl bothWritten_first
  exact (((((Disk.Run.refl _).tail hfirst).tail hsecond).tail hsome).tail hwhole).tail
    hrename |>.tail .crash

theorem clearedDisk_reached :
    Disk.Run IsSaveWrite crashedDisk [.remove firstListing.path] clearedDisk :=
  (Disk.Run.refl crashedDisk).tail (.remove firstListing.path)

theorem reads_ok {saved : α → Prop} {removed : Prop} {a : α}
    (h : Reads saved removed (.ok (some a))) : saved a := by
  cases h with
  | saved h => exact h

/-- The listing written whole is read and not the unfinished one; whoever had found the
file before it was cleared finds none to open. -/
theorem checkpointFiles_refine_scola :
    loadBucketCheckpoint crashedDisk.files crashedDisk.files 7 "scola".toList =
        .ok (some [schoolPhoto]) ∧
      SavedIn [.put firstWrite] firstListing.path (Save.HasObjects [schoolPhoto]) ∧
      loadBucketCheckpoint crashedDisk.files clearedDisk.files 7 "scola".toList =
        .error .fileNotFound := by
  obtain ⟨⟨_, hcrashed, _⟩, _, hreads, _⟩ :=
    checkpointFiles_refine crashedDisk_reached (.refl crashedDisk) 7 "scola".toList
  obtain ⟨⟨_, hcleared, _⟩, _⟩ :=
    checkpointFiles_refine crashedDisk_reached clearedDisk_reached 7 "scola".toList
  have hread : loadBucketCheckpoint crashedDisk.files crashedDisk.files 7 "scola".toList =
      .ok (some [schoolPhoto]) := hcrashed.trans rfl
  rw [hread] at hreads
  have hsaved := reads_ok hreads
  exact ⟨hread, hsaved, hcleared.trans rfl⟩

end StorageReconciler
