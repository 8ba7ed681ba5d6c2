import Mathlib.Data.Char
import Mathlib.Data.Finset.Dedup
import Mathlib.Data.List.Lex
import Mathlib.Data.List.Sort
import StorageReconciler.Database

/-!
# Checkpoints

What finished items leave behind under the reports directory.  A request names
a directory by a digest of what it asks for, and each finished item has a file
there, named after the item with every unusual character replaced.
-/

namespace StorageReconciler

open Strings

variable {ι κ : Type*}

/-! ## Names -/

/-- `[a-zA-Z0-9_.-]` -/
def isSafeNameChar (c : Char) : Bool := c.isAlphanum || c == '_' || c == '.' || c == '-'

def safeName (name : Str) : Str := name.map fun c ↦ if isSafeNameChar c then c else '_'

def mappingKey (mapping : TableColumnMapping) : Str := mapping.table ++ '.' :: mapping.column

/-- A mapping in the description of a request. -/
def mappingId (mapping : TableColumnMapping) : Str :=
  mapping.table ++ '.' :: (mapping.column ++ '.' :: idColumnOf mapping)

def sorted (l : List Str) : List Str := l.insertionSort (· ≤ ·)

theorem mem_sorted {l : List Str} {s : Str} : s ∈ sorted l ↔ s ∈ l := List.mem_insertionSort _

/-- The description of a request that its checkpoint id is a digest of. -/
structure CheckpointKey where
  buckets : Option (List Str)
  keyPrefix : Option Str
  database : Option Str
  provider : Option Str
  mappings : List Str
  deriving DecidableEq

/-- An empty list of buckets counts as no list. -/
def checkpointKeyFor (request : ReconciliationRequest) : CheckpointKey where
  buckets :=
    match request.buckets with
    | some (b :: bs) => some (sorted (b :: bs))
    | _ => none
  keyPrefix := request.keyPrefix
  database := request.database
  provider := request.provider
  mappings := sorted (request.mappings.map mappingId)

/-! ## Contents -/

/-- The files by directory and name.  Those of mappings, buckets and rich-text
columns have names that begin differently. -/
structure Checkpoints (ι κ : Type*) where
  mapping : ι × Str → Option (List (DbFileReference κ))
  bucket : ι × Str → Option (List StorageObject)
  content : ι × Str → Option (Finset Str × ℕ)

def Checkpoints.empty : Checkpoints ι κ := ⟨fun _ ↦ none, fun _ ↦ none, fun _ ↦ none⟩

def clearFiles {δ : Type*} [DecidableEq ι] (id : ι) (files : ι × Str → Option δ) :
    ι × Str → Option δ :=
  fun f ↦ if f.1 = id then none else files f

def Checkpoints.clear [DecidableEq ι] (checkpoints : Checkpoints ι κ) (id : ι) :
    Checkpoints ι κ where
  mapping := clearFiles id checkpoints.mapping
  bucket := clearFiles id checkpoints.bucket
  content := clearFiles id checkpoints.content

theorem clearFiles_eq_some {δ : Type*} [DecidableEq ι] {id : ι} {files : ι × Str → Option δ}
    {f : ι × Str} {d : δ} (h : clearFiles id files f = some d) : files f = some d := by
  unfold clearFiles at h
  split_ifs at h
  exact h

/-! ## Which mapping a description names -/

theorem dot_notMem_of_isValidIdentifier {name : Str} (h : isValidIdentifier name = true) :
    '.' ∉ name := by
  cases name with
  | nil => exact List.not_mem_nil
  | cons c rest =>
      simp only [isValidIdentifier, Bool.and_eq_true, Bool.or_eq_true, beq_iff_eq] at h
      obtain ⟨hc, hrest⟩ := h
      have hfirst : '.' ≠ c := by
        rintro rfl
        rcases hc with hc | hc <;> exact absurd hc (by decide)
      have htail : '.' ∉ rest := by
        rw [← List.takeWhile_append_dropWhile (p := isIdentifierChar) (l := rest), List.mem_append]
        rintro (hmem | hmem)
        · exact absurd (List.mem_takeWhile_imp hmem) (by decide)
        · simp only [isAtEnd, Bool.or_eq_true, beq_iff_eq] at hrest
          rcases hrest with hnil | hnewline
          · exact absurd hmem (by simp [hnil])
          · exact absurd hmem (by simp [hnewline])
      simp [hfirst, htail]

theorem eq_of_mappingId_eq {m m' : TableColumnMapping}
    (hvalid : isValidIdentifier m.table = true ∧ isValidIdentifier m.column = true ∧
      isValidIdentifier (idColumnOf m) = true)
    (h : mappingId m' = mappingId m) :
    m.table = m'.table ∧ m.column = m'.column ∧ idColumnOf m = idColumnOf m' := by
  have htable := dot_notMem_of_isValidIdentifier hvalid.1
  have hcolumn := dot_notMem_of_isValidIdentifier hvalid.2.1
  have hid := dot_notMem_of_isValidIdentifier hvalid.2.2
  -- the two dots between the names are the only ones
  have hcount := congrArg (List.count '.') h
  simp only [mappingId, List.count_append, List.count_cons_self,
    List.count_eq_zero.mpr htable, List.count_eq_zero.mpr hcolumn,
    List.count_eq_zero.mpr hid] at hcount
  have htable' : '.' ∉ m'.table := List.count_eq_zero.mp (by omega)
  have hcolumn' : '.' ∉ m'.column := List.count_eq_zero.mp (by omega)
  have hsplit := congrArg (partition '.') h
  rw [mappingId, mappingId, partition_append htable', partition_append htable,
    Prod.mk.injEq] at hsplit
  have hsplit' := congrArg (partition '.') hsplit.2
  rw [partition_append hcolumn', partition_append hcolumn, Prod.mk.injEq] at hsplit'
  exact ⟨hsplit.1.symm, hsplit'.1.symm, hsplit'.2.symm⟩

end StorageReconciler
