import StorageReconciler.ArchivedContents

/-!
# Objects that were at the destination before

A copy that does not overwrite looks first and uploads later, while its other workers
and other programs write to the same store.  As long as nobody deletes there, what it
found at the beginning is never uploaded to.
-/

namespace StorageReconciler

open Strings Workers

variable {σ : Type*}

/-- Other programs may write at the destination, and delete nothing there. -/
def KeepsPresent (call : CopyCall σ) (others : Objects σ → Objects σ → Prop) : Prop :=
  ∀ objects objects', others objects objects' → ∀ l, l.store = call.destProvider →
    objects l ≠ none → objects' l ≠ none

section Shared

variable [DecidableEq σ] (call : CopyCall σ) (bucketErrors : Str → Option Str)
  (others : Objects σ → Objects σ → Prop)

/-- The workers copy their items, and whoever has no item is another program. -/
def sharedAction : Action (CopyState σ) CopyStatus := fun i s t s' t' ↦
  copyAction call bucketErrors i s t s' t' ∨
    call.items.length ≤ i ∧ others s.objects s'.objects ∧ s'.aclSupported = s.aclSupported ∧ t' = t

/-- The object that was at a place is still some object, and the same one where the
other programs leave the place alone. -/
def PlaceKept (before : Objects σ) (l : Location σ) (s : CopyState σ) : Prop :=
  s.objects l ≠ none ∧
    ((∀ objects objects', others objects objects' → objects' l = objects l) →
      s.objects l = before l)

/-- A worker whose item goes to the place does not transfer anything. -/
def LeavesAlone (l : Location σ) (i : ℕ) (_ : CopyState σ) (t : CopyStatus) : Prop :=
  ∀ item, call.items[i]? = some item → call.destOf item = l → t.isTransferring = false

variable {call bucketErrors others} {before : Objects σ} {l : Location σ}

/-- A worker that leaves the place alone changes nothing there. -/
theorem LeavesAlone.objects_eq {i : ℕ} {s s' : CopyState σ} {t t' : CopyStatus}
    (h : LeavesAlone call l i s t) (hact : copyAction call bucketErrors i s t s' t') :
    s'.objects l = s.objects l := by
  obtain ⟨item, hitem, hone⟩ := hact
  rcases hone.objects_cases with hsame | ⟨body, obj, acl, rfl, _, hput⟩
  · rw [hsame]
  · have hdest : call.destOf item ≠ l := fun hdest ↦
      Bool.false_ne_true (h item hitem hdest).symm
    rw [hput, Function.update_of_ne hdest.symm]

theorem placeKept_stable (hkeeps : call.overwrite = false) (hothers : KeepsPresent call others)
    (hl : l.store = call.destProvider) :
    Stable (sharedAction call bucketErrors others) (PlaceKept others before l)
      (LeavesAlone call l) where
  shared := by
    rintro i s t s' t' (hact | ⟨_, hother, _, _⟩) ⟨hthere, hsame⟩ halone
    · rw [PlaceKept, halone.objects_eq hact]
      exact ⟨hthere, hsame⟩
    · exact ⟨hothers _ _ hother l hl hthere, fun h ↦ (h _ _ hother).trans (hsame h)⟩
  own := by
    rintro i s t s' t' (⟨item, hitem, hone⟩ | ⟨hlength, _, _, _⟩) ⟨hthere, _⟩ halone item'
      hitem' hdest
    · obtain rfl := Option.some.inj (hitem.symm.trans hitem')
      exact (hone.keeps_present hkeeps (hdest.symm ▸ hthere) (halone item hitem hdest)).2
    · rw [List.getElem?_eq_none hlength] at hitem'
      exact nomatch hitem'
  other := fun _ _ _ _ halone ↦ halone

/-- In a copy that does not overwrite, nothing is ever about to be uploaded to where an
object was at the beginning, no step of a worker changes what is there, and it is the
same object in the end unless another program replaces it. -/
theorem existing_destination_kept (hkeeps : call.overwrite = false)
    (hothers : KeepsPresent call others) (hl : l.store = call.destProvider)
    (hthere : before l ≠ none) {p : Team (CopyState σ) CopyStatus}
    (hrun : Relation.ReflTransGen (Step (sharedAction call bucketErrors others))
      (CopyStart before) p) :
    (∀ i item body acl, call.items[i]? = some item → call.destOf item = l →
      p.status i ≠ .fetched body acl) ∧
    (∀ i s t, copyAction call bucketErrors i p.shared (p.status i) s t →
      s.objects l = p.shared.objects l) ∧
    ((∀ objects objects', others objects objects' → objects' l = objects l) →
      p.shared.objects l = before l) := by
  have hstart : Holds (PlaceKept others before l) (LeavesAlone call l) (CopyStart before) :=
    ⟨⟨hthere, fun _ ↦ rfl⟩, fun _ _ _ _ ↦ rfl⟩
  obtain ⟨⟨_, hsame⟩, halone⟩ :=
    (placeKept_stable hkeeps hothers hl).reachable hstart hrun
  refine ⟨fun i item body acl hitem hdest hfetched ↦ ?_, fun i s t hact ↦ ?_, hsame⟩
  · have hidle := halone i item hitem hdest
    rw [hfetched] at hidle
    exact Bool.false_ne_true hidle.symm
  · exact (halone i).objects_eq hact

end Shared

/-- Two items that go to one place, and one that goes to another. -/
def twoToOne : CopyCall Bool where
  items := [("a".toList, "k".toList), ("b".toList, "k".toList), ("c".toList, "m".toList)]
  sourceProvider := false
  destProvider := true
  destBucket := some "d".toList
  overwrite := false
  makePublic := true
  destKeyFn := none
  destBucketFn := none

def onePlace : Location Bool := ⟨true, "d".toList, "k".toList⟩

def otherPlace : Location Bool := ⟨true, "d".toList, "m".toList⟩

def kept : StoredObject := ⟨[1], none, [], 0, none⟩

/-- Something is at the one place, and the item for the other one has a source. -/
def onlyKept : Objects Bool := fun l ↦
  if l = onePlace ∨ l = ⟨false, "c".toList, "m".toList⟩ then some kept else none

/-- What another program does, elsewhere at the destination. -/
def writeElsewhere (objects : Objects Bool) : Objects Bool :=
  Function.update objects ⟨true, "d".toList, "n".toList⟩ (some kept)

def writesElsewhere (objects objects' : Objects Bool) : Prop :=
  objects' = writeElsewhere objects

/-- Two workers find the object at the one place while the third uploads its item. -/
theorem exists_twoToOne_run : ∃ p : Team (CopyState Bool) CopyStatus,
    Relation.ReflTransGen (Step (sharedAction twoToOne (fun _ ↦ none) writesElsewhere))
      (CopyStart onlyKept) p ∧
    p.status 0 = .done (twoToOne.skippedOutcome ("a".toList, "k".toList)) ∧
    p.status 1 = .done (twoToOne.skippedOutcome ("b".toList, "k".toList)) ∧
    p.status 2 = .done (twoToOne.copied ("c".toList, "m".toList)) ∧
    p.shared.objects otherPlace = some kept := by
  have hupload : IsUpload kept kept := ⟨rfl, fun _ ↦ rfl⟩
  have hwrite : sharedAction twoToOne (fun _ ↦ none) writesElsewhere 3
      ⟨onlyKept, fun _ ↦ true⟩ .waiting ⟨writeElsewhere onlyKept, fun _ ↦ true⟩ .waiting :=
    .inr ⟨le_rfl, rfl, rfl, rfl⟩
  refine ⟨?p, ?run, ?first, ?second, ?third, ?there⟩
  case run =>
    refine .head (Step.worker (i := 1) (.inl ⟨_, rfl, .found rfl rfl rfl⟩)) ?_
    refine .head (Step.worker (i := 2) (.inl ⟨_, rfl, .notFound rfl rfl rfl⟩)) ?_
    refine .head (Step.worker (i := 3) hwrite) ?_
    refine .head (Step.worker (i := 2) (.inl ⟨_, rfl, .get rfl⟩)) ?_
    refine .head (Step.worker (i := 0) (.inl ⟨_, rfl, .found rfl rfl rfl⟩)) ?_
    refine .head (Step.worker (i := 2) (.inl ⟨_, rfl, .upload hupload⟩)) ?_
    refine .head (Step.worker (i := 0) (.inl ⟨_, rfl, .skip⟩)) ?_
    refine .head (Step.worker (i := 1) (.inl ⟨_, rfl, .skip⟩)) ?_
    exact .refl
  all_goals rfl

/-- The two workers end without a change at the one place, whatever is next. -/
theorem existing_destination_kept_twoToOne :
    ∃ p : Team (CopyState Bool) CopyStatus,
      p.status 0 = .done (twoToOne.skippedOutcome ("a".toList, "k".toList)) ∧
      p.status 1 = .done (twoToOne.skippedOutcome ("b".toList, "k".toList)) ∧
      p.status 2 = .done (twoToOne.copied ("c".toList, "m".toList)) ∧
      p.shared.objects otherPlace = some kept ∧
      (∀ i s t, copyAction twoToOne (fun _ ↦ none) i p.shared (p.status i) s t →
        s.objects onePlace = p.shared.objects onePlace) ∧
      p.shared.objects onePlace = some kept := by
  have hthere : onlyKept onePlace = some kept := if_pos (.inl rfl)
  have hothers : KeepsPresent twoToOne writesElsewhere := by
    rintro o _ rfl l _ hl
    rw [writeElsewhere, Function.update_apply]
    split_ifs
    · exact Option.some_ne_none kept
    · exact hl
  have helsewhere : ∀ objects objects' : Objects Bool, writesElsewhere objects objects' →
      objects' onePlace = objects onePlace := by
    rintro o _ rfl
    exact Function.update_of_ne (by decide) _ _
  obtain ⟨p, hrun, hfirst, hsecond, hthird, hcopied⟩ := exists_twoToOne_run
  obtain ⟨_, hnext, hsame⟩ := existing_destination_kept rfl hothers (l := onePlace) rfl
    (hthere ▸ Option.some_ne_none kept) hrun
  exact ⟨p, hfirst, hsecond, hthird, hcopied, hnext, (hsame helsewhere).trans hthere⟩

end StorageReconciler
