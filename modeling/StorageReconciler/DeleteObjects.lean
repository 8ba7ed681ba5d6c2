import StorageReconciler.Foundations.OrderedDict
import StorageReconciler.Foundations.Workers
import StorageReconciler.Types

/-!
# Deleting objects in batches

The requested objects are grouped by bucket and deleted in batches, several at a
time.  Each batch records what the provider said of each of its keys, and what is
recorded last for an object is what the caller is told about it.
-/

namespace StorageReconciler

open Workers

/-! ## Batches -/

/-- `by_bucket.setdefault(bucket, []).append(key)` -/
def addToBucket (byBucket : OrderedDict Str (List Str)) (item : Str × Str) :
    OrderedDict Str (List Str) :=
  byBucket.insert item.1 ((byBucket.get? item.1).getD [] ++ [item.2])

def groupByBucket (items : List (Str × Str)) : OrderedDict Str (List Str) :=
  items.foldl addToBucket .empty

/-- `keys[start : start + n] for start in range(0, len(keys), n)` -/
def slices {α : Type*} (n : ℕ) (keys : List α) : List (List α) :=
  (List.range ((keys.length + n - 1) / n)).map fun i ↦ (keys.drop (i * n)).take n

def deleteChunks (batchSize : ℕ) (items : List (Str × Str)) : List (Str × List Str) :=
  (groupByBucket items).entries.flatMap fun e ↦ (slices batchSize e.2).map fun keys ↦ (e.1, keys)

/-! ## Answers -/

structure DeleteError where
  key : Str
  message : Option Str
  code : Option Str
  deriving DecidableEq

/-- What comes of a request: the entries of the answer, or an exception. -/
inductive DeleteAnswer where
  | replied (deleted : List Str) (errors : List DeleteError)
  | raised (message : Str)
  deriving DecidableEq

structure DeleteResult where
  bucket : Str
  key : Str
  success : Bool
  error : Option Str
  deriving DecidableEq

def errorResult (bucket : Str) (err : DeleteError) : DeleteResult where
  bucket := bucket
  key := err.key
  success := false
  error := orElse err.message (orElse err.code (some "Unknown error".toList))

def batchResults (bucket : Str) (chunk : List Str) : DeleteAnswer → List DeleteResult
  | .raised message => chunk.map fun key ↦ ⟨bucket, key, false, some message⟩
  | .replied deleted errors =>
      deleted.map (fun key ↦ ⟨bucket, key, true, none⟩) ++ errors.map (errorResult bucket)

/-- The entries name keys of the batch, no key among the deleted and the failed. -/
def IsAnswer (chunk : List Str) : DeleteAnswer → Prop
  | .raised _ => True
  | .replied deleted errors =>
      (∀ k ∈ deleted, k ∈ chunk ∧ k ∉ errors.map DeleteError.key) ∧
        ∀ err ∈ errors, err.key ∈ chunk

/-! ## Recording -/

abbrev DeleteOutcomes := Str × Str → Option DeleteResult

/-- A batch is not requested yet, or has results left to record. -/
inductive DeleteStatus where
  | waiting
  | recording (rest : List DeleteResult)

def record (outcomes : DeleteOutcomes) (r : DeleteResult) : DeleteOutcomes :=
  Function.update outcomes (r.bucket, r.key) (some r)

/-- The steps of `delete_chunk`. -/
inductive DeleteChunk (results : List DeleteResult) :
    DeleteOutcomes → DeleteStatus → DeleteOutcomes → DeleteStatus → Prop where
  | request {o : DeleteOutcomes} : DeleteChunk results o .waiting o (.recording results)
  | record {o : DeleteOutcomes} {r : DeleteResult} {rest : List DeleteResult} :
      DeleteChunk results o (.recording (r :: rest)) (record o r) (.recording rest)

section Delete

variable (batchSize : ℕ) (items : List (Str × Str)) (answers : ℕ → DeleteAnswer)

/-- What the batch of a number records. -/
def resultsOf (i : ℕ) : List DeleteResult :=
  match (deleteChunks batchSize items)[i]? with
  | some c => batchResults c.1 c.2 (answers i)
  | none => []

def deleteAction : Action DeleteOutcomes DeleteStatus := fun i o t o' t' ↦
  i < (deleteChunks batchSize items).length ∧
    DeleteChunk (resultsOf batchSize items answers i) o t o' t'

def deleteStart : Team DeleteOutcomes DeleteStatus := ⟨fun _ ↦ none, fun _ ↦ .waiting⟩

def returnedResults (outcomes : DeleteOutcomes) : List DeleteResult :=
  items.map fun item ↦ (outcomes item).getD
    ⟨item.1, item.2, false, some "No response from provider".toList⟩

/-- The call returns the results, whatever the order in which the batches run. -/
def DeletesTo (results : List DeleteResult) : Prop :=
  ∃ p, Relation.ReflTransGen (Step (deleteAction batchSize items answers)) deleteStart p ∧
    (∀ i < (deleteChunks batchSize items).length, p.status i = .recording []) ∧
    results = returnedResults items p.shared

/-- The batch tells that the object was deleted. -/
def Confirms (i : ℕ) (item : Str × Str) : Prop :=
  ∃ c deleted errors, (deleteChunks batchSize items)[i]? = some c ∧ c.1 = item.1 ∧
    answers i = .replied deleted errors ∧ item.2 ∈ deleted

/-- The batch has an error for the object, or ends in an exception. -/
def Fails (i : ℕ) (item : Str × Str) : Prop :=
  ∃ c, (deleteChunks batchSize items)[i]? = some c ∧ c.1 = item.1 ∧
    ((∃ deleted errors, answers i = .replied deleted errors ∧
        item.2 ∈ errors.map DeleteError.key) ∨
      ∃ message, answers i = .raised message ∧ item.2 ∈ c.2)

/-- Every object is sent to its bucket as often as requested in batches that are not too
large, and the results tell in order which objects a batch deleted. -/
structure TellsWhatHappened (results : List DeleteResult) : Prop where
  sent : ((deleteChunks batchSize items).flatMap fun c ↦ c.2.map fun key ↦ (c.1, key)).Perm items
  size : ∀ c ∈ deleteChunks batchSize items, c.2.length ≤ batchSize
  aligned : results.map (fun r ↦ (r.bucket, r.key)) = items
  success : ∀ r ∈ results,
    r.success = true ↔ ∃ i, Confirms batchSize items answers i (r.bucket, r.key)

end Delete

/-! ## What is sent -/

theorem flatten_slices_range {α : Type*} (n m : ℕ) (keys : List α) :
    ((List.range m).map fun i ↦ (keys.drop (i * n)).take n).flatten = keys.take (m * n) := by
  induction m with
  | zero => simp
  | succ m ih =>
      calc
        ((List.range (m + 1)).map fun i ↦ (keys.drop (i * n)).take n).flatten =
            keys.take (m * n) ++ (keys.drop (m * n)).take n := by
          rw [List.range_succ, List.map_append, List.flatten_append, ih]
          simp
        _ = keys.take ((m + 1) * n) := by rw [Nat.add_mul, Nat.one_mul, List.take_add]

theorem flatten_slices {α : Type*} {n : ℕ} (hn : 0 < n) (keys : List α) :
    (slices n keys).flatten = keys := by
  rw [slices, flatten_slices_range]
  apply List.take_of_length_le
  have hdiv := Nat.div_add_mod (keys.length + n - 1) n
  have hmod := Nat.mod_lt (keys.length + n - 1) hn
  rw [Nat.mul_comm]
  omega

theorem length_le_of_mem_slices {α : Type*} {n : ℕ} {keys part : List α}
    (h : part ∈ slices n keys) : part.length ≤ n := by
  obtain ⟨i, _, rfl⟩ := List.mem_map.mp h
  exact List.length_take_le n _

theorem flatMap_addToBucket_perm (d : OrderedDict Str (List Str)) (item : Str × Str) :
    ((addToBucket d item).entries.flatMap fun e ↦ e.2.map fun key ↦ (e.1, key)).Perm
      ((d.entries.flatMap fun e ↦ e.2.map fun key ↦ (e.1, key)) ++ [item]) := by
  cases hget : d.get? item.1 with
  | none =>
      rw [addToBucket, hget, OrderedDict.entries_insert_of_notMem
        (OrderedDict.get?_eq_none_iff.mp hget), List.flatMap_append]
      exact .of_eq (by simp)
  | some keys =>
      obtain ⟨before, after, hbefore, hafter⟩ := OrderedDict.entries_insert_of_get? hget
        ((d.get? item.1).getD [] ++ [item.2])
      rw [addToBucket, hafter, hbefore, hget]
      simp only [List.flatMap_append, List.flatMap_cons, Option.getD_some, List.map_append,
        List.map_cons, List.map_nil, List.append_assoc]
      exact (List.perm_append_comm.append_left _).append_left _

theorem flatMap_groupByBucket_perm (items : List (Str × Str)) :
    ((groupByBucket items).entries.flatMap fun e ↦ e.2.map fun key ↦ (e.1, key)).Perm items := by
  have hfold : ∀ (items : List (Str × Str)) (d : OrderedDict Str (List Str)),
      ((items.foldl addToBucket d).entries.flatMap fun e ↦ e.2.map fun key ↦ (e.1, key)).Perm
        ((d.entries.flatMap fun e ↦ e.2.map fun key ↦ (e.1, key)) ++ items) := by
    intro items
    induction items with
    | nil => exact fun d ↦ .of_eq (List.append_nil _).symm
    | cons item items ih =>
        intro d
        have hstep := (flatMap_addToBucket_perm d item).append_right items
        rw [List.append_assoc] at hstep
        exact (ih _).trans hstep
  exact hfold items .empty

/-- Grouped and cut into batches, the items are sent as often as they were requested. -/
theorem sent_perm {batchSize : ℕ} (hbatch : 0 < batchSize) (items : List (Str × Str)) :
    ((deleteChunks batchSize items).flatMap fun c ↦ c.2.map fun key ↦ (c.1, key)).Perm items := by
  refine .trans (.of_eq ?_) (flatMap_groupByBucket_perm items)
  rw [deleteChunks, List.flatMap_assoc]
  apply List.flatMap_congr
  intro e _
  rw [List.flatMap_map, List.flatMap_def]
  change ((slices batchSize e.2).map (List.map fun key ↦ (e.1, key))).flatten = _
  rw [← List.map_flatten, flatten_slices hbatch]

theorem length_le_of_mem_deleteChunks {batchSize : ℕ} {items : List (Str × Str)}
    {c : Str × List Str} (h : c ∈ deleteChunks batchSize items) : c.2.length ≤ batchSize := by
  obtain ⟨e, _, hc⟩ := List.mem_flatMap.mp h
  obtain ⟨keys, hkeys, rfl⟩ := List.mem_map.mp hc
  exact length_le_of_mem_slices hkeys

/-! ## What is recorded -/

section Recorded

variable {batchSize : ℕ} {items : List (Str × Str)} {answers : ℕ → DeleteAnswer}

theorem mem_resultsOf {i : ℕ} {r : DeleteResult} (h : r ∈ resultsOf batchSize items answers i) :
    if r.success then Confirms batchSize items answers i (r.bucket, r.key)
    else Fails batchSize items answers i (r.bucket, r.key) := by
  rw [resultsOf] at h
  cases hc : (deleteChunks batchSize items)[i]? with
  | none =>
      rw [hc] at h
      exact absurd h List.not_mem_nil
  | some c =>
      rw [hc] at h
      cases hanswer : answers i with
      | raised message =>
          simp only [hanswer, batchResults] at h
          obtain ⟨key, hkey, rfl⟩ := List.mem_map.mp h
          exact ⟨c, hc, rfl, .inr ⟨message, hanswer, hkey⟩⟩
      | replied deleted errors =>
          simp only [hanswer, batchResults] at h
          rcases List.mem_append.mp h with h | h
          · obtain ⟨key, hkey, rfl⟩ := List.mem_map.mp h
            exact ⟨c, deleted, errors, hc, rfl, hanswer, hkey⟩
          · obtain ⟨err, herr, rfl⟩ := List.mem_map.mp h
            exact ⟨c, hc, rfl, .inl ⟨deleted, errors, hanswer, List.mem_map_of_mem herr⟩⟩

theorem Confirms.exists_mem {i : ℕ} {item : Str × Str}
    (h : Confirms batchSize items answers i item) :
    ∃ r ∈ resultsOf batchSize items answers i, (r.bucket, r.key) = item ∧ r.success = true := by
  obtain ⟨c, deleted, errors, hc, hbucket, hanswer, hkey⟩ := h
  refine ⟨⟨c.1, item.2, true, none⟩, ?_, Prod.ext hbucket rfl, rfl⟩
  simp only [resultsOf, hc, hanswer, batchResults]
  exact List.mem_append_left _ (List.mem_map_of_mem hkey)

theorem Fails.exists_mem {i : ℕ} {item : Str × Str} (h : Fails batchSize items answers i item) :
    ∃ r ∈ resultsOf batchSize items answers i, (r.bucket, r.key) = item := by
  obtain ⟨c, hc, hbucket, ⟨deleted, errors, hanswer, hkey⟩ | ⟨message, hanswer, hkey⟩⟩ := h
  · obtain ⟨err, herr, hkey⟩ := List.mem_map.mp hkey
    refine ⟨errorResult c.1 err, ?_, Prod.ext hbucket hkey⟩
    simp only [resultsOf, hc, hanswer, batchResults]
    exact List.mem_append_right _ (List.mem_map_of_mem herr)
  · refine ⟨⟨c.1, item.2, false, some message⟩, ?_, Prod.ext hbucket rfl⟩
    simp only [resultsOf, hc, hanswer, batchResults]
    exact List.mem_map_of_mem hkey

theorem Confirms.not_fails {i : ℕ} {item : Str × Str}
    (hanswers : ∀ i c, (deleteChunks batchSize items)[i]? = some c → IsAnswer c.2 (answers i))
    (h : Confirms batchSize items answers i item) : ¬Fails batchSize items answers i item := by
  obtain ⟨c, deleted, errors, hc, _, hanswer, hkey⟩ := h
  have hvalid := hanswers i c hc
  rw [hanswer] at hvalid
  rintro ⟨_, _, _, ⟨deleted', errors', hanswer', herror⟩ | ⟨message, hanswer', _⟩⟩
  · obtain ⟨rfl, rfl⟩ := DeleteAnswer.replied.inj (hanswer.symm.trans hanswer')
    exact (hvalid.1 item.2 hkey).2 herror
  · exact nomatch hanswer.symm.trans hanswer'

theorem Confirms.mem_chunk {i : ℕ} {item : Str × Str}
    (hanswers : ∀ i c, (deleteChunks batchSize items)[i]? = some c → IsAnswer c.2 (answers i))
    (h : Confirms batchSize items answers i item) :
    ∃ c, (deleteChunks batchSize items)[i]? = some c ∧ c.1 = item.1 ∧ item.2 ∈ c.2 := by
  obtain ⟨c, deleted, errors, hc, hbucket, hanswer, hkey⟩ := h
  have hvalid := hanswers i c hc
  rw [hanswer] at hvalid
  exact ⟨c, hc, hbucket, (hvalid.1 item.2 hkey).1⟩

theorem Fails.mem_chunk {i : ℕ} {item : Str × Str}
    (hanswers : ∀ i c, (deleteChunks batchSize items)[i]? = some c → IsAnswer c.2 (answers i))
    (h : Fails batchSize items answers i item) :
    ∃ c, (deleteChunks batchSize items)[i]? = some c ∧ c.1 = item.1 ∧ item.2 ∈ c.2 := by
  obtain ⟨c, hc, hbucket, ⟨deleted, errors, hanswer, hkey⟩ | ⟨_, _, hkey⟩⟩ := h
  · obtain ⟨err, herr, herrkey⟩ := List.mem_map.mp hkey
    have hvalid := hanswers i c hc
    rw [hanswer] at hvalid
    exact ⟨c, hc, hbucket, herrkey ▸ hvalid.2 err herr⟩
  · exact ⟨c, hc, hbucket, hkey⟩

/-- Of objects that are requested once each no batch fails on one that another confirms. -/
theorem no_conflict_of_nodup (hbatch : 0 < batchSize) (hnodup : items.Nodup)
    (hanswers : ∀ i c, (deleteChunks batchSize items)[i]? = some c → IsAnswer c.2 (answers i))
    {item : Str × Str} : ¬((∃ i, Confirms batchSize items answers i item) ∧
      ∃ j, Fails batchSize items answers j item) := by
  rintro ⟨⟨i, hconfirms⟩, j, hfails⟩
  obtain ⟨c, hc, hbucket, hkey⟩ := hconfirms.mem_chunk hanswers
  obtain ⟨c', hc', hbucket', hkey'⟩ := hfails.mem_chunk hanswers
  have hsent := (List.Perm.nodup_iff (sent_perm hbatch items)).mpr hnodup
  have happart := (List.nodup_flatMap.mp hsent).2
  have hmem : item ∈ c.2.map fun key ↦ (c.1, key) :=
    List.mem_map.mpr ⟨item.2, hkey, Prod.ext hbucket rfl⟩
  have hmem' : item ∈ c'.2.map fun key ↦ (c'.1, key) :=
    List.mem_map.mpr ⟨item.2, hkey', Prod.ext hbucket' rfl⟩
  obtain ⟨hi, rfl⟩ := List.getElem?_eq_some_iff.mp hc
  obtain ⟨hj, rfl⟩ := List.getElem?_eq_some_iff.mp hc'
  rcases Nat.lt_trichotomy i j with hlt | rfl | hlt
  · exact List.pairwise_iff_getElem.mp happart i j hi hj hlt hmem hmem'
  · exact hconfirms.not_fails hanswers hfails
  · exact List.pairwise_iff_getElem.mp happart j i hj hi hlt hmem' hmem

/-- What is recorded of an object is a result of some batch for it. -/
def OutcomesGiven (batchSize : ℕ) (items : List (Str × Str)) (answers : ℕ → DeleteAnswer)
    (o : DeleteOutcomes) : Prop :=
  ∀ item r, o item = some r → (r.bucket, r.key) = item ∧
    ∃ i, r ∈ resultsOf batchSize items answers i

/-- The results of a batch are recorded except those that are left. -/
def BatchRecorded (batchSize : ℕ) (items : List (Str × Str)) (answers : ℕ → DeleteAnswer) (i : ℕ)
    (o : DeleteOutcomes) : DeleteStatus → Prop
  | .waiting => True
  | .recording rest => (∀ r ∈ rest, r ∈ resultsOf batchSize items answers i) ∧
      ∀ r ∈ resultsOf batchSize items answers i, r ∈ rest ∨ o (r.bucket, r.key) ≠ none

theorem record_ne_none {o : DeleteOutcomes} {r : DeleteResult} {item : Str × Str}
    (h : o item ≠ none) : record o r item ≠ none := by
  rw [record]
  by_cases heq : item = (r.bucket, r.key)
  · rw [heq, Function.update_self]
    exact Option.some_ne_none r
  · rwa [Function.update_of_ne heq]

theorem recorded_stable (batchSize : ℕ) (items : List (Str × Str)) (answers : ℕ → DeleteAnswer) :
    Stable (deleteAction batchSize items answers) (OutcomesGiven batchSize items answers)
      (BatchRecorded batchSize items answers) where
  shared := by
    rintro i s t s' t' ⟨_, hact⟩ hgiven hbatch
    cases hact with
    | request => exact hgiven
    | @record r rest =>
        intro item r' hr'
        rw [record] at hr'
        by_cases heq : item = (r.bucket, r.key)
        · rw [heq, Function.update_self] at hr'
          obtain rfl := Option.some.inj hr'
          exact ⟨heq.symm, i, hbatch.1 r List.mem_cons_self⟩
        · rw [Function.update_of_ne heq] at hr'
          exact hgiven item r' hr'
  own := by
    rintro i s t s' t' ⟨_, hact⟩ _ hbatch
    cases hact with
    | request => exact ⟨fun _ hr ↦ hr, fun _ hr ↦ .inl hr⟩
    | @record r rest =>
        refine ⟨fun r' hr' ↦ hbatch.1 r' (List.mem_cons_of_mem r hr'), fun r' hr' ↦ ?_⟩
        rcases hbatch.2 r' hr' with hleft | hrecorded
        · rcases List.mem_cons.mp hleft with rfl | hrest
          · right
            rw [record, Function.update_self]
            exact Option.some_ne_none r'
          · exact .inl hrest
        · exact .inr (record_ne_none hrecorded)
  other := by
    rintro i j s t u s' u' ⟨_, hact⟩ _ _ _ hbatch
    cases hact with
    | request => exact hbatch
    | @record r rest =>
        cases t with
        | waiting => exact trivial
        | recording left =>
            exact ⟨hbatch.1, fun r' hr' ↦ (hbatch.2 r' hr').imp_right record_ne_none⟩

/-- What a finished run has recorded: something for each object that a batch answered
for, and nothing but answers. -/
theorem outcomes_of_run {p : Team DeleteOutcomes DeleteStatus}
    (hrun : Relation.ReflTransGen (Step (deleteAction batchSize items answers)) deleteStart p)
    (hdone : ∀ i < (deleteChunks batchSize items).length, p.status i = .recording []) :
    OutcomesGiven batchSize items answers p.shared ∧
      ∀ i, ∀ r ∈ resultsOf batchSize items answers i, p.shared (r.bucket, r.key) ≠ none := by
  have hstart : Holds (OutcomesGiven batchSize items answers)
      (BatchRecorded batchSize items answers) deleteStart :=
    ⟨fun _ _ h ↦ (nomatch h), fun _ ↦ trivial⟩
  obtain ⟨hgiven, hbatches⟩ := (recorded_stable batchSize items answers).reachable hstart hrun
  refine ⟨hgiven, fun i r hr ↦ ?_⟩
  by_cases hi : i < (deleteChunks batchSize items).length
  · have hbatch := hbatches i
    rw [hdone i hi] at hbatch
    exact (hbatch.2 r hr).resolve_left List.not_mem_nil
  · rw [resultsOf, List.getElem?_eq_none (not_lt.mp hi)] at hr
    exact absurd hr List.not_mem_nil

theorem OutcomesGiven.aligned {o : DeleteOutcomes}
    (h : OutcomesGiven batchSize items answers o) :
    (returnedResults items o).map (fun r ↦ (r.bucket, r.key)) = items := by
  rw [returnedResults, List.map_map]
  refine (List.map_congr_left fun item _ ↦ ?_).trans items.map_id
  rw [Function.comp]
  cases ho : o item with
  | none => rfl
  | some r => exact (h item r ho).1

/-- Where no batch fails on what another one confirms, the last result of an object says
whether some batch confirmed it. -/
theorem success_of_no_conflict {o : DeleteOutcomes} {item : Str × Str}
    (hgiven : OutcomesGiven batchSize items answers o)
    (hrecorded : ∀ i, ∀ r ∈ resultsOf batchSize items answers i, o (r.bucket, r.key) ≠ none)
    (hconflict : ¬((∃ i, Confirms batchSize items answers i item) ∧
      ∃ j, Fails batchSize items answers j item)) :
    ((o item).getD ⟨item.1, item.2, false, some "No response from provider".toList⟩).success =
        true ↔ ∃ i, Confirms batchSize items answers i item := by
  constructor
  · intro hsuccess
    cases ho : o item with
    | none => simp [ho] at hsuccess
    | some r =>
        obtain ⟨rfl, i, hr⟩ := hgiven item r ho
        have hresult := mem_resultsOf hr
        rw [ho, Option.getD_some] at hsuccess
        rw [if_pos hsuccess] at hresult
        exact ⟨i, hresult⟩
  · rintro ⟨i, hconfirms⟩
    obtain ⟨r, hr, rfl, _⟩ := hconfirms.exists_mem
    obtain ⟨r', hr'⟩ := Option.ne_none_iff_exists'.mp (hrecorded i r hr)
    obtain ⟨heq, j, hj⟩ := hgiven _ _ hr'
    have hresult := mem_resultsOf hj
    rw [hr', Option.getD_some]
    by_contra hfailed
    rw [if_neg hfailed, heq] at hresult
    exact hconflict ⟨⟨i, hconfirms⟩, j, hresult⟩

/-! ## Batches one after another -/

variable (answers) in
theorem reaches_recorded {i : ℕ} (hi : i < (deleteChunks batchSize items).length)
    (rest : List DeleteResult) (p : Team DeleteOutcomes DeleteStatus)
    (hstatus : p.status i = .recording rest) :
    Relation.ReflTransGen (Step (deleteAction batchSize items answers)) p
      ⟨rest.foldl record p.shared, Function.update p.status i (.recording [])⟩ := by
  induction rest generalizing p with
  | nil =>
      rw [← hstatus, Function.update_eq_self]
      exact .refl
  | cons r rest ih =>
      have hstep : Step (deleteAction batchSize items answers) p
          ⟨record p.shared r, Function.update p.status i (.recording rest)⟩ :=
        .of_status hstatus ⟨hi, .record⟩
      have hrest := ih ⟨record p.shared r, Function.update p.status i (.recording rest)⟩
        (Function.update_self i _ _)
      rw [Function.update_idem] at hrest
      exact .head hstep hrest

variable (answers) in
theorem reaches_batch {i : ℕ} (hi : i < (deleteChunks batchSize items).length)
    {p : Team DeleteOutcomes DeleteStatus} (hstatus : p.status i = .waiting) :
    Relation.ReflTransGen (Step (deleteAction batchSize items answers)) p
      ⟨(resultsOf batchSize items answers i).foldl record p.shared,
        Function.update p.status i (.recording [])⟩ := by
  have hstep : Step (deleteAction batchSize items answers) p ⟨p.shared,
      Function.update p.status i (.recording (resultsOf batchSize items answers i))⟩ :=
    .of_status hstatus ⟨hi, .request⟩
  have hrest := reaches_recorded answers hi (resultsOf batchSize items answers i)
    ⟨p.shared, Function.update p.status i (.recording (resultsOf batchSize items answers i))⟩
    (Function.update_self i _ _)
  rw [Function.update_idem] at hrest
  exact .head hstep hrest

theorem exists_run_except (batchSize : ℕ) (items : List (Str × Str)) (answers : ℕ → DeleteAnswer)
    (j m : ℕ) (hm : m ≤ (deleteChunks batchSize items).length) :
    ∃ p, Relation.ReflTransGen (Step (deleteAction batchSize items answers)) deleteStart p ∧
      (∀ i < m, i ≠ j → p.status i = .recording []) ∧
      ∀ i, m ≤ i ∨ i = j → p.status i = .waiting := by
  induction m with
  | zero => exact ⟨deleteStart, .refl, fun i hi ↦ absurd hi (Nat.not_lt_zero i), fun _ _ ↦ rfl⟩
  | succ m ih =>
      obtain ⟨p, hrun, hdone, hwaiting⟩ := ih (Nat.le_of_succ_le hm)
      by_cases hmj : m = j
      · refine ⟨p, hrun, fun i hi hij ↦ hdone i (by omega) hij, fun i hi ↦ hwaiting i ?_⟩
        omega
      · refine ⟨_, hrun.trans (reaches_batch answers hm (hwaiting m (.inl le_rfl))),
          fun i hi hij ↦ ?_, fun i hi ↦ ?_⟩
        · by_cases him : i = m
          · rw [him]
            exact Function.update_self m _ _
          · exact (Function.update_of_ne him _ _).trans (hdone i (by omega) hij)
        · have him : i ≠ m := by omega
          exact (Function.update_of_ne him _ _).trans (hwaiting i (by omega))

theorem exists_foldl_record (rs : List DeleteResult) (o : DeleteOutcomes) {r : DeleteResult}
    (hr : r ∈ rs) :
    ∃ r' ∈ rs, (r'.bucket, r'.key) = (r.bucket, r.key) ∧
      rs.foldl record o (r.bucket, r.key) = some r' := by
  induction rs using List.reverseRecOn with
  | nil => exact absurd hr List.not_mem_nil
  | append_singleton rs last ih =>
      rw [List.foldl_append, List.foldl_cons, List.foldl_nil, record]
      by_cases hlast : (r.bucket, r.key) = (last.bucket, last.key)
      · refine ⟨last, by simp, hlast.symm, ?_⟩
        rw [hlast, Function.update_self]
      · have hbefore : r ∈ rs := by
          rcases List.mem_append.mp hr with h | h
          · exact h
          · obtain rfl := List.mem_singleton.mp h
            exact absurd rfl hlast
        obtain ⟨r', hr', hkey, hfold⟩ := ih hbefore
        refine ⟨r', List.mem_append_left _ hr', hkey, ?_⟩
        rw [Function.update_of_ne hlast, hfold]

/-- Whatever the order of the batches, the results tell what the provider did exactly when
no batch fails on an object that another batch confirms. -/
theorem delete_results_exact_iff (hbatch : 0 < batchSize)
    (hanswers : ∀ i c, (deleteChunks batchSize items)[i]? = some c → IsAnswer c.2 (answers i)) :
    (∀ results, DeletesTo batchSize items answers results →
      TellsWhatHappened batchSize items answers results) ↔
      ∀ item ∈ items, ¬((∃ i, Confirms batchSize items answers i item) ∧
        ∃ j, Fails batchSize items answers j item) := by
  constructor
  · rintro h item hitem ⟨hconfirms, j, hfails⟩
    have hj : j < (deleteChunks batchSize items).length := by
      obtain ⟨c, hc, _⟩ := hfails
      exact (List.getElem?_eq_some_iff.mp hc).1
    obtain ⟨p, hrun, hdone, hwaiting⟩ := exists_run_except batchSize items answers j _ le_rfl
    have hlast := reaches_batch answers hj (hwaiting j (.inr rfl))
    have htells := h _ ⟨_, hrun.trans hlast, fun i hi ↦ ?_, rfl⟩
    · obtain ⟨r, hr, hkey⟩ := hfails.exists_mem
      obtain ⟨r', hr', hkey', hfold⟩ :=
        exists_foldl_record (resultsOf batchSize items answers j) p.shared hr
      rw [hkey] at hkey' hfold
      have hreturned : r' ∈ returnedResults items
          ((resultsOf batchSize items answers j).foldl record p.shared) :=
        List.mem_map.mpr ⟨item, hitem, by rw [hfold, Option.getD_some]⟩
      have hsuccess := (htells.success r' hreturned).mpr (hkey' ▸ hconfirms)
      have hresult := mem_resultsOf hr'
      rw [if_pos hsuccess, hkey'] at hresult
      exact hresult.not_fails hanswers hfails
    · by_cases hij : i = j
      · rw [hij]
        exact Function.update_self j _ _
      · exact (Function.update_of_ne hij _ _).trans (hdone i hi hij)
  · rintro hconflict results ⟨p, hrun, hdone, rfl⟩
    obtain ⟨hgiven, hrecorded⟩ := outcomes_of_run hrun hdone
    refine ⟨sent_perm hbatch items, fun c hc ↦ length_le_of_mem_deleteChunks hc, hgiven.aligned,
      fun r hr ↦ ?_⟩
    obtain ⟨item, hitem, rfl⟩ := List.mem_map.mp hr
    have hsuccess := success_of_no_conflict hgiven hrecorded (hconflict item hitem)
    cases ho : p.shared item with
    | none =>
        rw [ho] at hsuccess
        exact hsuccess
    | some r =>
        rw [ho, Option.getD_some] at hsuccess
        rw [Option.getD_some, (hgiven item r ho).1]
        exact hsuccess

end Recorded

/-! ## Three batches -/

/-- Objects of two buckets, in batches of two. -/
def fourItems : List (Str × Str) :=
  [("b".toList, "k".toList), ("b".toList, "l".toList), ("c".toList, "m".toList),
    ("b".toList, "n".toList)]

/-- One object of the first batch is refused, and the second one times out. -/
def partlyFails : ℕ → DeleteAnswer
  | 0 => .replied ["l".toList] [⟨"k".toList, none, some "AccessDenied".toList⟩]
  | 1 => .raised "timed out".toList
  | _ => .replied ["m".toList] []

theorem isAnswer_partlyFails {i : ℕ} {c : Str × List Str}
    (hc : (deleteChunks 2 fourItems)[i]? = some c) : IsAnswer c.2 (partlyFails i) := by
  have hchunks : deleteChunks 2 fourItems = [("b".toList, ["k".toList, "l".toList]),
      ("b".toList, ["n".toList]), ("c".toList, ["m".toList])] := by decide
  rw [hchunks] at hc
  match i, hc with
  | 0, hc =>
      obtain rfl := Option.some.inj hc
      exact ⟨by decide, by decide⟩
  | 1, _ => trivial
  | 2, hc =>
      obtain rfl := Option.some.inj hc
      exact ⟨by decide, by decide⟩

/-- The batches record side by side. -/
theorem exists_deletesTo_partlyFails : DeletesTo 2 fourItems partlyFails
    [⟨"b".toList, "k".toList, false, some "AccessDenied".toList⟩,
      ⟨"b".toList, "l".toList, true, none⟩, ⟨"c".toList, "m".toList, true, none⟩,
      ⟨"b".toList, "n".toList, false, some "timed out".toList⟩] := by
  refine ⟨?p, ?run, ?done, ?results⟩
  case run =>
    refine .head (Step.worker (i := 1) ⟨by decide, .request⟩) ?_
    refine .head (Step.worker (i := 0) ⟨by decide, .request⟩) ?_
    refine .head (Step.worker (i := 0) ⟨by decide, .record⟩) ?_
    refine .head (Step.worker (i := 2) ⟨by decide, .request⟩) ?_
    refine .head (Step.worker (i := 2) ⟨by decide, .record⟩) ?_
    refine .head (Step.worker (i := 1) ⟨by decide, .record⟩) ?_
    refine .head (Step.worker (i := 0) ⟨by decide, .record⟩) ?_
    exact .refl
  case done =>
    have hlength : (deleteChunks 2 fourItems).length = 3 := by decide
    intro i hi
    rw [hlength] at hi
    match i, hi with
    | 0, _ | 1, _ | 2, _ => rfl
  case results => rfl

/-- The two objects that batches confirm are told as deleted, and the others are not. -/
theorem delete_results_exact_iff_once : TellsWhatHappened 2 fourItems partlyFails
    [⟨"b".toList, "k".toList, false, some "AccessDenied".toList⟩,
      ⟨"b".toList, "l".toList, true, none⟩, ⟨"c".toList, "m".toList, true, none⟩,
      ⟨"b".toList, "n".toList, false, some "timed out".toList⟩] := by
  have hbatch : 0 < 2 := Nat.two_pos
  have hanswers : ∀ i c, (deleteChunks 2 fourItems)[i]? = some c → IsAnswer c.2 (partlyFails i) :=
    fun _ _ ↦ isAnswer_partlyFails
  apply (delete_results_exact_iff hbatch hanswers).mpr
  · intro item _
    exact no_conflict_of_nodup hbatch (by decide) hanswers
  · exact exists_deletesTo_partlyFails

/-! ## An object requested twice -/

/-- The first batch is deleted, and any other one times out. -/
def timesOutLater : ℕ → DeleteAnswer
  | 0 => .replied ["k".toList] []
  | _ + 1 => .raised "timed out".toList

/-- An object requested as often as given. -/
def requestedTimes (n : ℕ) : List (Str × Str) := List.replicate n ("b".toList, "k".toList)

theorem isAnswer_timesOutLater {n : ℕ} {i : ℕ} {c : Str × List Str}
    (hfirst : (deleteChunks 1 (requestedTimes n))[0]? = some ("b".toList, ["k".toList]))
    (hc : (deleteChunks 1 (requestedTimes n))[i]? = some c) : IsAnswer c.2 (timesOutLater i) := by
  cases i with
  | zero =>
      obtain rfl := Option.some.inj (hfirst.symm.trans hc)
      exact ⟨by decide, by decide⟩
  | succ i => exact trivial

/-- An object requested twice in batches of one: the second batch times out, and the
object counts as not deleted. -/
theorem confirmed_deletion_reported_failed :
    ¬∀ (batchSize : ℕ) (items : List (Str × Str)) (answers : ℕ → DeleteAnswer)
      (results : List DeleteResult), 0 < batchSize →
      (∀ i c, (deleteChunks batchSize items)[i]? = some c → IsAnswer c.2 (answers i)) →
      DeletesTo batchSize items answers results →
      TellsWhatHappened batchSize items answers results := by
  intro h
  have hlength : (deleteChunks 1 (requestedTimes 2)).length = 2 := by decide
  obtain ⟨p, hrun, hdone, hwaiting⟩ :=
    exists_run_except 1 (requestedTimes 2) timesOutLater 1 2 hlength.ge
  have hlast := reaches_batch timesOutLater (hlength.symm ▸ (by decide : 1 < 2))
    (hwaiting 1 (.inr rfl))
  have htells := h 1 (requestedTimes 2) timesOutLater _ Nat.one_pos
    (fun _ _ ↦ isAnswer_timesOutLater (by decide)) ⟨_, hrun.trans hlast, fun i hi ↦ ?_, rfl⟩
  · have hresults : resultsOf 1 (requestedTimes 2) timesOutLater 1 =
        [⟨"b".toList, "k".toList, false, some "timed out".toList⟩] := by decide
    have hfailed : (⟨"b".toList, "k".toList, false, some "timed out".toList⟩ : DeleteResult) ∈
        returnedResults (requestedTimes 2)
          ((resultsOf 1 (requestedTimes 2) timesOutLater 1).foldl record p.shared) := by
      rw [hresults]
      refine List.mem_map.mpr ⟨("b".toList, "k".toList), by decide, ?_⟩
      rw [List.foldl_cons, List.foldl_nil, record, Function.update_self, Option.getD_some]
    have hconfirmed : Confirms 1 (requestedTimes 2) timesOutLater 0 ("b".toList, "k".toList) :=
      ⟨("b".toList, ["k".toList]), ["k".toList], [], by decide, rfl, rfl, by decide⟩
    exact Bool.false_ne_true ((htells.success _ hfailed).mpr ⟨0, hconfirmed⟩)
  · by_cases hi1 : i = 1
    · subst hi1
      simp only [Function.update_self]
    · exact (Function.update_of_ne hi1 _ _).trans (hdone i (hlength ▸ hi) hi1)

end StorageReconciler
