import StorageReconciler.Reconciliation

/-!
# Accounting for every object

The report totals what is matched, orphaned and protected as everything seen in
the storage.  The classification keeps one object for each key, so the totals
are right exactly when no key was listed twice.
-/

namespace StorageReconciler

open Strings

variable {κ : Type*}

/-- Each bucket lists its own objects, every key once. -/
def IsListing (buckets : List Str) (bucketResults : List (List StorageObject)) : Prop :=
  List.Forall₂ (fun bucket objs ↦
    (∀ obj ∈ objs, obj.bucket = bucket) ∧ (objs.map StorageObject.key).Nodup)
    buckets bucketResults

/-- No key was listed twice, neither in one bucket nor in two. -/
def KeysApart (bucketResults : List (List StorageObject)) : Prop :=
  (bucketResults.flatten.map StorageObject.key).Nodup

/-- Bucket and key of everything matched, orphaned or protected. -/
def storedEntries (r : ReconciliationResult κ) : List (Str × Str) :=
  r.matched.map (fun m ↦ (m.bucket, m.path)) ++
    (r.orphan.map (fun o ↦ (o.bucket, o.path)) ++ r.protected.map fun o ↦ (o.bucket, o.path))

def matchedSize (r : ReconciliationResult κ) : ℕ := (r.matched.map MatchedFile.size).sum

def orphanSize (r : ReconciliationResult κ) : ℕ := (r.orphan.map OrphanFile.size).sum

def protectedSize (r : ReconciliationResult κ) : ℕ := (r.protected.map OrphanFile.size).sum

/-- Each listed object has exactly one entry, and the totals of the report are those
of the listing. -/
structure Accounts (objs : List StorageObject) (r : ReconciliationResult κ) : Prop where
  once : ∀ obj ∈ objs, (storedEntries r).count (obj.bucket, obj.key) = 1
  counts : r.summary.matchedCount + r.summary.orphanCount + r.summary.protectedCount =
    r.summary.storageObjectCount
  sizes : matchedSize r + orphanSize r + protectedSize r = (objs.map StorageObject.size).sum

/-! ## The classified objects -/

theorem map_path_matchedFiles (dbFiles : OrderedDict Str (DbFileReference κ))
    (storageObjects : OrderedDict Str StorageObject) :
    (matchedFiles dbFiles storageObjects).map MatchedFile.path =
      (dbFiles.entries.map Prod.fst).filter storageObjects.contains := by
  rw [matchedFiles]
  generalize dbFiles.entries = entries
  induction entries with
  | nil => rfl
  | cons e entries ih =>
      cases hget : storageObjects.get? e.1 <;>
        simp [OrderedDict.contains, hget, ih, matchedOf]

/-- What matters of a matched file or an orphan as an account of an object. -/
def accountOf (bucket key : Str) (size : ℕ) : Str × Str × ℕ := (bucket, key, size)

def MatchedFile.account (m : MatchedFile κ) : Str × Str × ℕ := accountOf m.bucket m.path m.size

def OrphanFile.account (o : OrphanFile) : Str × Str × ℕ := accountOf o.bucket o.path o.size

def entryAccount (e : Str × StorageObject) : Str × Str × ℕ := accountOf e.2.bucket e.1 e.2.size

theorem nodup_account_matchedFiles (dbFiles : OrderedDict Str (DbFileReference κ))
    (storageObjects : OrderedDict Str StorageObject) :
    ((matchedFiles dbFiles storageObjects).map MatchedFile.account).Nodup := by
  have hpaths : (((matchedFiles dbFiles storageObjects).map MatchedFile.account).map
      fun a ↦ a.2.1).Nodup := by
    rw [List.map_map]
    change ((matchedFiles dbFiles storageObjects).map MatchedFile.path).Nodup
    rw [map_path_matchedFiles]
    exact dbFiles.nodup.filter _
  exact hpaths.of_map _

theorem nodup_entryAccount (d : OrderedDict Str StorageObject) :
    (d.entries.map entryAccount).Nodup := by
  have hkeys : ((d.entries.map entryAccount).map fun a ↦ a.2.1).Nodup := by
    rw [List.map_map]
    exact d.nodup
  exact hkeys.of_map _

theorem perm_matchedFiles (dbFiles : OrderedDict Str (DbFileReference κ))
    (storageObjects : OrderedDict Str StorageObject) :
    ((matchedFiles dbFiles storageObjects).map MatchedFile.account).Perm
      ((storageObjects.entries.filter fun e ↦ dbFiles.contains e.1).map entryAccount) := by
  apply (List.perm_ext_iff_of_nodup (nodup_account_matchedFiles dbFiles storageObjects)
    ((nodup_entryAccount storageObjects).sublist (List.filter_sublist.map _))).mpr
  intro a
  simp only [List.mem_map, mem_matchedFiles, List.mem_filter]
  constructor
  · rintro ⟨m, ⟨path, ref, obj, href, hobj, rfl⟩, rfl⟩
    refine ⟨(path, obj), ⟨OrderedDict.get?_eq_some_iff.mp hobj, ?_⟩, rfl⟩
    simp [OrderedDict.contains, href]
  · rintro ⟨⟨path, obj⟩, ⟨hobj, hcontains⟩, rfl⟩
    obtain ⟨ref, href⟩ := Option.isSome_iff_exists.mp hcontains
    exact ⟨_, ⟨path, ref, obj, href, OrderedDict.get?_eq_some_iff.mpr hobj, rfl⟩, rfl⟩

theorem account_rawOrphans (dbFiles : OrderedDict Str (DbFileReference κ))
    (storageObjects : OrderedDict Str StorageObject) :
    (rawOrphans dbFiles storageObjects).map OrphanFile.account =
      (storageObjects.entries.filter fun e ↦ !dbFiles.contains e.1).map entryAccount := by
  rw [rawOrphans, List.map_map]
  rfl

section Accounts

variable (T : Tables) (env : Env) (request : ReconciliationRequest) (buckets : List Str)
  (data : ScanData κ)

def accounts (r : ReconciliationResult κ) : List (Str × Str × ℕ) :=
  r.matched.map MatchedFile.account ++
    (r.orphan.map OrphanFile.account ++ r.protected.map OrphanFile.account)

/-- Matched, orphaned and protected files share out the indexed objects. -/
theorem accounts_perm : (accounts (reconcile T env request buckets data)).Perm
    ((indexObjects data.bucketResults).entries.map entryAccount) := by
  set storageObjects := indexObjects data.bucketResults with hobjects
  set dbFiles := (indexReferences T env (effectiveProvider env request) buckets
    data.mappingResults).dbFiles with hfiles
  set content := ((data.contentResults.map collectContent).getD (∅, 0)).1 with hcontent
  have horphans : ((rawOrphans dbFiles storageObjects).filter (fun o ↦ decide (o.path ∉ content)) ++
      (rawOrphans dbFiles storageObjects).filter fun o ↦ decide (o.path ∈ content)).Perm
      (rawOrphans dbFiles storageObjects) := by
    have hsplit := List.filter_append_perm (fun o : OrphanFile ↦ decide (o.path ∉ content))
      (rawOrphans dbFiles storageObjects)
    simpa using hsplit
  have hrest : (((reconcile T env request buckets data).orphan.map OrphanFile.account) ++
      (reconcile T env request buckets data).protected.map OrphanFile.account).Perm
      ((storageObjects.entries.filter fun e ↦ !dbFiles.contains e.1).map entryAccount) := by
    rw [← List.map_append, ← account_rawOrphans]
    exact horphans.map _
  have hmatched := perm_matchedFiles dbFiles storageObjects
  have hindexed := List.filter_append_perm (fun e ↦ dbFiles.contains e.1) storageObjects.entries
  have hall := hindexed.map entryAccount
  rw [List.map_append] at hall
  exact (hmatched.append hrest).trans hall

theorem counts_eq_length : (reconcile T env request buckets data).summary.matchedCount +
    (reconcile T env request buckets data).summary.orphanCount +
      (reconcile T env request buckets data).summary.protectedCount =
    (indexObjects data.bucketResults).entries.length := by
  have hlen := (accounts_perm T env request buckets data).length_eq
  simp only [accounts, List.length_append, List.length_map] at hlen
  rw [← hlen, ← Nat.add_assoc]
  rfl

variable {data}

theorem mem_indexObjects_keys {k : Str} :
    k ∈ (indexObjects data.bucketResults).entries.map Prod.fst ↔
      k ∈ data.bucketResults.flatten.map StorageObject.key := by
  rw [← not_iff_not, ← OrderedDict.get?_eq_none_iff, get?_indexObjects_eq_none_iff]
  simp only [List.mem_map, List.mem_flatten, not_exists, not_and]
  constructor
  · rintro h obj ⟨objs, hobjs, hobj⟩
    exact h objs hobjs obj hobj
  · exact fun h objs hobjs obj hobj ↦ h obj ⟨objs, hobjs, hobj⟩

theorem length_indexObjects : (indexObjects data.bucketResults).entries.length =
    (data.bucketResults.flatten.map StorageObject.key).dedup.length := by
  have hperm : ((indexObjects data.bucketResults).entries.map Prod.fst).Perm
      (data.bucketResults.flatten.map StorageObject.key).dedup := by
    apply (List.perm_ext_iff_of_nodup (indexObjects data.bucketResults).nodup
      (List.nodup_dedup _)).mpr
    intro k
    rw [mem_indexObjects_keys, List.mem_dedup]
  rw [← hperm.length_eq, List.length_map]

theorem KeysApart.entries_eq (h : KeysApart data.bucketResults) :
    (indexObjects data.bucketResults).entries =
      data.bucketResults.flatten.map fun obj ↦ (obj.key, obj) := by
  have hpairs : (indexObjects data.bucketResults) =
      (data.bucketResults.flatten.map fun obj ↦ (obj.key, obj)).foldl
        (fun d e ↦ d.insert e.1 e.2) OrderedDict.empty := by
    rw [indexObjects, List.foldl_map]
  rw [hpairs, OrderedDict.entries_foldl_insert]
  · rfl
  · rw [OrderedDict.empty, List.nil_append, List.map_map]
    exact h

theorem KeysApart.accounts_perm (h : KeysApart data.bucketResults) :
    (accounts (reconcile T env request buckets data)).Perm
      (data.bucketResults.flatten.map fun obj ↦ accountOf obj.bucket obj.key obj.size) := by
  have hperm := StorageReconciler.accounts_perm T env request buckets data
  rw [h.entries_eq, List.map_map] at hperm
  exact hperm

end Accounts

theorem storedEntries_eq (r : ReconciliationResult κ) :
    storedEntries r = (accounts r).map fun a ↦ (a.1, a.2.1) := by
  simp only [accounts, List.map_append, List.map_map]
  rfl

theorem sizes_eq (r : ReconciliationResult κ) :
    matchedSize r + orphanSize r + protectedSize r = ((accounts r).map fun a ↦ a.2.2).sum := by
  simp only [accounts, List.map_append, List.map_map, List.sum_append, ← Nat.add_assoc]
  rfl

/-- Every listed object has exactly one entry and the totals add up, exactly when no
key was listed twice. -/
theorem accounts_iff_keysApart (T : Tables) (env : Env) (request : ReconciliationRequest)
    (buckets : List Str) (data : ScanData κ) :
    Accounts data.bucketResults.flatten (reconcile T env request buckets data) ↔
      KeysApart data.bucketResults := by
  constructor
  · intro h
    have hcounts := h.counts
    rw [counts_eq_length, length_indexObjects] at hcounts
    change _ = data.bucketResults.flatten.length at hcounts
    rw [← List.length_map StorageObject.key] at hcounts
    exact List.dedup_eq_self.mp ((List.dedup_sublist _).eq_of_length hcounts)
  · intro h
    have hperm := h.accounts_perm T env request buckets
    refine ⟨fun obj hobj ↦ ?_, ?_, ?_⟩
    · have hstored := hperm.map fun a ↦ (a.1, a.2.1)
      rw [← storedEntries_eq, List.map_map] at hstored
      have hnodup : (data.bucketResults.flatten.map fun obj ↦ (obj.bucket, obj.key)).Nodup := by
        have hkeys : ((data.bucketResults.flatten.map fun obj ↦
            (obj.bucket, obj.key)).map Prod.snd).Nodup := by
          rw [List.map_map]
          exact h
        exact hkeys.of_map _
      rw [hstored.count_eq]
      exact List.count_eq_one_of_mem hnodup (List.mem_map_of_mem hobj)
    · rw [counts_eq_length, h.entries_eq, List.length_map]
      rfl
    · rw [sizes_eq, (hperm.map fun a ↦ a.2.2).sum_nat, List.map_map]
      rfl

/-! ## Two buckets with a common key -/

/-- The same file in the bucket of each of two schools. -/
def twoSchools : ScanData ℕ where
  mappingResults := []
  bucketResults := [[⟨"scola".toList, "a.png".toList, 5, none, none⟩],
    [⟨"tec".toList, "a.png".toList, 7, none, none⟩]]
  contentResults := none

theorem accounts_fails_twoSchools :
    ¬∀ (T : Tables) (env : Env) (request : ReconciliationRequest) (buckets : List Str)
      (data : ScanData ℕ), buckets.Nodup → IsListing buckets data.bucketResults →
      Accounts data.bucketResults.flatten (reconcile T env request buckets data) := by
  intro h
  have haccounts := h Tables.ascii sgp1Env (photoRequest "scola".toList)
    ["scola".toList, "tec".toList] twoSchools (by decide)
    (.cons ⟨by decide, by decide⟩ (.cons ⟨by decide, by decide⟩ .nil))
  have honce := haccounts.once ⟨"scola".toList, "a.png".toList, 5, none, none⟩ (by decide)
  exact absurd honce (by decide)

end StorageReconciler
