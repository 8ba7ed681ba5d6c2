import StorageReconciler.AnsweredCopies

/-!
# Copying to buckets without access lists

Some buckets refuse every request that carries an access list.  An upload they refuse is
made again without one, from a source that is read again.  Apart from these refusals a
store answers a request by what it stores, and then asking for public objects makes no
difference.
-/

namespace StorageReconciler

open Strings Workers

variable {T : Tables} {σ : Type*} [DecidableEq σ]

/-! ## A plain copy follows a public one -/

/-- The call with or without an access list to set. -/
def CopyCall.withAcl (call : CopyCall σ) (makePublic : Bool) : CopyCall σ :=
  { call with makePublic := makePublic }

section Follow

variable {answers : StoreAnswers T σ} {call : CopyCall σ} {bucketErrors : Str → Option Str}

variable (answers call) in
/-- How far a worker is that sets an access list, and one that does not.  As long as the
list may be refused, the second has yet to read its source. -/
inductive Degrades (item : Str × Str) (objects : Objects σ) : CopyStatus → CopyStatus → Prop where
  | waiting : Degrades item objects .waiting .waiting
  | present : Degrades item objects .present .present
  | transfer : Degrades item objects .transfer .transfer
  | fetched {body : StoredObject} {acl : Bool}
      (accepted : (acl && answers.refuses (call.resolveDestBucket item)) = false) :
      Degrades item objects (.fetched body acl) (.fetched body false)
  | asking {body obj : StoredObject}
      (refused : answers.refuses (call.resolveDestBucket item) = true)
      (there : objects (call.sourceOf item) = some obj)
      (type : obj.contentType = body.contentType) :
      Degrades item objects (.fetched body true) .transfer
  | refused {obj : StoredObject} (there : objects (call.sourceOf item) = some obj) :
      Degrades item objects (.refused obj.contentType) .transfer
  | done {r : CopyResult} : Degrades item objects (.done r) (.done r)

omit [DecidableEq σ] in
theorem Degrades.congr {item : Str × Str} {objects objects' : Objects σ} {t u : CopyStatus}
    (hsource : objects' (call.sourceOf item) = objects (call.sourceOf item))
    (h : Degrades answers call item objects t u) : Degrades answers call item objects' t u := by
  cases h with
  | waiting => exact .waiting
  | present => exact .present
  | transfer => exact .transfer
  | fetched accepted => exact .fetched accepted
  | asking refused there type => exact .asking refused (hsource.trans there) type
  | refused there => exact .refused (hsource.trans there)
  | done => exact .done

theorem AnsweredCopy.of_waiting {acl acl' : Bool} {item : Str × Str} {s s₁ s' : CopyState σ}
    {t : CopyStatus}
    (h : AnsweredCopy answers (call.withAcl acl) bucketErrors item s .waiting s₁ t)
    (hobjects : s.objects = s'.objects) :
    s₁ = s ∧ AnsweredCopy answers (call.withAcl acl') bucketErrors item s' .waiting s' t ∧
      Degrades answers call item s.objects t t := by
  cases h with
  | unavailable error => exact ⟨rfl, .unavailable error, .done⟩
  | headFails available keeps answered =>
      exact ⟨rfl, .headFails available keeps (hobjects ▸ answered), .done⟩
  | found available keeps answered =>
      exact ⟨rfl, .found available keeps (hobjects ▸ answered), .present⟩
  | notFound available keeps answered =>
      exact ⟨rfl, .notFound available keeps (hobjects ▸ answered), .transfer⟩
  | force available overwrites => exact ⟨rfl, .force available overwrites, .transfer⟩

theorem AnsweredCopy.of_accepted {acl acl' : Bool} {item : Str × Str} {s s₁ s' : CopyState σ}
    {t : CopyStatus} {body : StoredObject} {sets sets' : Bool}
    (h : AnsweredCopy answers (call.withAcl acl) bucketErrors item s (.fetched body sets) s₁ t)
    (haccepted : (sets && answers.refuses (call.resolveDestBucket item)) = false)
    (haccepted' : (sets' && answers.refuses (call.resolveDestBucket item)) = false)
    (hobjects : s.objects = s'.objects) :
    ∃ s₁', AnsweredCopy answers (call.withAcl acl') bucketErrors item s' (.fetched body sets')
        s₁' t ∧
      s₁.objects = s₁'.objects ∧ Degrades answers call item s₁.objects t t := by
  have hput : ∀ obj, (s.put (call.destOf item) obj).objects =
      (s'.put (call.destOf item) obj).objects := fun obj ↦ by
    rw [CopyState.put_objects, CopyState.put_objects, hobjects]
  cases h with
  | @upload body obj sets accepted answered stores =>
      exact ⟨_, .upload haccepted' (hobjects ▸ answered) (hobjects ▸ stores), hput obj, .done⟩
  | uploadRefused refused => exact absurd (haccepted.symm.trans refused) Bool.false_ne_true
  | uploadFails accepted answered =>
      exact ⟨s', .uploadFails haccepted' (hobjects ▸ answered), hobjects, .done⟩
  | @uploadLost body obj sets e accepted answered stores =>
      exact ⟨_, .uploadLost haccepted' (hobjects ▸ answered) (hobjects ▸ stores), hput obj, .done⟩

/-- Each step of the one worker is a step of the other, or none. -/
theorem AnsweredCopy.followed {i : ℕ} {item : Str × Str} (hitem : call.items[i]? = some item)
    {s s₁ s' : CopyState σ} {t t₁ u : CopyStatus}
    (h : AnsweredCopy answers (call.withAcl true) bucketErrors item s t s₁ t₁)
    (hobjects : s.objects = s'.objects) (hrelated : Degrades answers call item s.objects t u) :
    ∃ s₁' u₁, Relation.ReflTransGen
        (Alone (answeredAction answers (call.withAcl false) bucketErrors) i) (s', u) (s₁', u₁) ∧
      s₁.objects = s₁'.objects ∧ Degrades answers call item s₁.objects t₁ u₁ := by
  have hone : ∀ {s₂ : CopyState σ} {u₂ : CopyStatus},
      AnsweredCopy answers (call.withAcl false) bucketErrors item s' u s₂ u₂ →
      Relation.ReflTransGen (Alone (answeredAction answers (call.withAcl false) bucketErrors) i)
        (s', u) (s₂, u₂) := fun hstep ↦ .single ⟨item, hitem, hstep⟩
  cases hrelated with
  | waiting =>
      obtain ⟨rfl, hstep, hdegrades⟩ := h.of_waiting hobjects
      exact ⟨s', _, hone hstep, hobjects, hdegrades⟩
  | present =>
      cases h with
      | skip accepted => exact ⟨s', _, hone (.skip rfl), hobjects, .done⟩
      | skipRefused acl refused => exact ⟨s', _, hone (.skip rfl), hobjects, .done⟩
  | transfer =>
      cases h with
      | get answered =>
          by_cases hrefused : (s.aclSupported (call.resolveDestBucket item) &&
              answers.refuses (call.resolveDestBucket item)) = true
          · -- the plain worker waits for the answer to the upload
            obtain ⟨hacl, hrefused⟩ := Bool.and_eq_true_iff.mp hrefused
            have hflag : ((call.withAcl true).makePublic && s.aclSupported
                ((call.withAcl true).resolveDestBucket item)) = true := hacl
            rw [hflag]
            exact ⟨s', _, .refl, hobjects,
              .asking hrefused (StoreAnswers.objects_of_get answered) rfl⟩
          · refine ⟨s', _, hone (.get (hobjects ▸ answered)), hobjects, .fetched ?_⟩
            exact Bool.not_eq_true _ ▸ hrefused
      | getFails answered =>
          exact ⟨s', _, hone (.getFails (hobjects ▸ answered)), hobjects, .done⟩
  | fetched accepted =>
      obtain ⟨s₁', hstep, hobjects₁, hdegrades⟩ :=
        h.of_accepted accepted (Bool.false_and _) hobjects
      exact ⟨s₁', _, hone hstep, hobjects₁, hdegrades⟩
  | asking refused there type =>
      cases h with
      | uploadRefused => exact ⟨s', _, .refl, hobjects, type ▸ .refused there⟩
      | upload accepted | uploadFails accepted | uploadLost accepted =>
          exact absurd (accepted.symm.trans refused) Bool.false_ne_true
  | @refused o there =>
      cases h with
      | @getAgain _ obj answered =>
          obtain rfl : obj = o :=
            Option.some.inj ((StoreAnswers.objects_of_get answered).symm.trans there)
          exact ⟨s', _, hone (.get (hobjects ▸ answered)), hobjects, .fetched (Bool.false_and _)⟩
      | getAgainFails answered =>
          exact ⟨s', _, hone (.getFails (hobjects ▸ answered)), hobjects, .done⟩
  | done => exact nomatch h

theorem reaches_getAgain {i : ℕ} {item : Str × Str} (hitem : call.items[i]? = some item)
    {s : CopyState σ} {body obj : StoredObject}
    (hrefused : answers.refuses (call.resolveDestBucket item) = true)
    (hanswered : answers.get (call.sourceOf item) s.objects = .ok obj)
    (htype : obj.contentType = body.contentType) :
    Relation.ReflTransGen (Alone (answeredAction answers (call.withAcl true) bucketErrors) i)
      (s, .fetched body true)
      (s.refuseAcl (call.resolveDestBucket item), .fetched obj false) := by
  have hrefuse : Alone (answeredAction answers (call.withAcl true) bucketErrors) i
      (s, .fetched body true)
      (s.refuseAcl (call.resolveDestBucket item), .refused obj.contentType) :=
    htype ▸ ⟨item, hitem, .uploadRefused hrefused⟩
  exact .tail (.single hrefuse) ⟨item, hitem, .getAgain hanswered⟩

theorem exists_fetched {i : ℕ} {item : Str × Str} (hitem : call.items[i]? = some item)
    {s : CopyState σ} {obj : StoredObject} {t : CopyStatus}
    (hanswered : answers.get (call.sourceOf item) s.objects = .ok obj)
    (hrelated : Degrades answers call item s.objects t .transfer) :
    ∃ s' t', Relation.ReflTransGen
        (Alone (answeredAction answers (call.withAcl true) bucketErrors) i) (s, t) (s', t') ∧
      s'.objects = s.objects ∧ Degrades answers call item s.objects t' (.fetched obj false) := by
  cases hrelated with
  | transfer =>
      have hget : Alone (answeredAction answers (call.withAcl true) bucketErrors) i (s, .transfer)
          (s, .fetched obj (true && s.aclSupported (call.resolveDestBucket item))) :=
        ⟨item, hitem, .get hanswered⟩
      by_cases hrefused : (s.aclSupported (call.resolveDestBucket item) &&
          answers.refuses (call.resolveDestBucket item)) = true
      · obtain ⟨hacl, hrefused⟩ := Bool.and_eq_true_iff.mp hrefused
        rw [hacl] at hget
        exact ⟨_, _, .head hget (reaches_getAgain hitem hrefused hanswered rfl), rfl,
          .fetched (Bool.false_and _)⟩
      · exact ⟨s, _, .single hget, rfl, .fetched (Bool.not_eq_true _ ▸ hrefused)⟩
  | @asking _ o refused there type =>
      obtain rfl : obj = o :=
        Option.some.inj ((StoreAnswers.objects_of_get hanswered).symm.trans there)
      exact ⟨_, _, reaches_getAgain hitem refused hanswered type, rfl,
        .fetched (Bool.false_and _)⟩
  | @refused o there =>
      obtain rfl : obj = o :=
        Option.some.inj ((StoreAnswers.objects_of_get hanswered).symm.trans there)
      have hagain : Alone (answeredAction answers (call.withAcl true) bucketErrors) i
          (s, .refused obj.contentType) (s, .fetched obj false) :=
        ⟨item, hitem, .getAgain hanswered⟩
      exact ⟨s, _, .single hagain, rfl, .fetched (Bool.false_and _)⟩

theorem exists_getFailed {i : ℕ} {item : Str × Str} (hitem : call.items[i]? = some item)
    {s : CopyState σ} {e : Str} {t : CopyStatus}
    (hanswered : answers.get (call.sourceOf item) s.objects = .error e)
    (hrelated : Degrades answers call item s.objects t .transfer) :
    ∃ s', Relation.ReflTransGen
        (Alone (answeredAction answers (call.withAcl true) bucketErrors) i) (s, t)
        (s', .done (call.failed item e)) ∧ s'.objects = s.objects := by
  cases hrelated with
  | transfer => exact ⟨s, .single ⟨item, hitem, .getFails hanswered⟩, rfl⟩
  | @asking body _ refused there type =>
      have hrefuse : Alone (answeredAction answers (call.withAcl true) bucketErrors) i
          (s, .fetched body true)
          (s.refuseAcl (call.resolveDestBucket item), .refused body.contentType) :=
        ⟨item, hitem, .uploadRefused refused⟩
      have hfails : Alone (answeredAction answers (call.withAcl true) bucketErrors) i
          (s.refuseAcl (call.resolveDestBucket item), .refused body.contentType)
          (s.refuseAcl (call.resolveDestBucket item), .done (call.failed item e)) :=
        ⟨item, hitem, .getAgainFails hanswered⟩
      exact ⟨_, .tail (.single hrefuse) hfails, rfl⟩
  | refused there => exact ⟨s, .single ⟨item, hitem, .getAgainFails hanswered⟩, rfl⟩

/-- Each step of a worker that sets no access list is followed by one that does. -/
theorem AnsweredCopy.followed_public {i : ℕ} {item : Str × Str}
    (hitem : call.items[i]? = some item) {s s₁ s' : CopyState σ} {t t₁ u : CopyStatus}
    (h : AnsweredCopy answers (call.withAcl false) bucketErrors item s t s₁ t₁)
    (hobjects : s.objects = s'.objects) (hrelated : Degrades answers call item s.objects u t) :
    ∃ s₁' u₁, Relation.ReflTransGen
        (Alone (answeredAction answers (call.withAcl true) bucketErrors) i) (s', u) (s₁', u₁) ∧
      s₁.objects = s₁'.objects ∧ Degrades answers call item s₁.objects u₁ t₁ := by
  have hone : ∀ {s₂ : CopyState σ} {v u₂ : CopyStatus},
      AnsweredCopy answers (call.withAcl true) bucketErrors item s' v s₂ u₂ →
      Relation.ReflTransGen (Alone (answeredAction answers (call.withAcl true) bucketErrors) i)
        (s', v) (s₂, u₂) := fun hstep ↦ .single ⟨item, hitem, hstep⟩
  cases t with
  | waiting =>
      cases hrelated
      obtain ⟨rfl, hstep, hdegrades⟩ := h.of_waiting hobjects
      exact ⟨s', _, hone hstep, hobjects, hdegrades⟩
  | present =>
      cases hrelated
      cases h with
      | skip accepted =>
          by_cases hrefused : (s'.aclSupported (call.resolveDestBucket item) &&
              answers.refuses (call.resolveDestBucket item)) = true
          · obtain ⟨hacl, hrefused⟩ := Bool.and_eq_true_iff.mp hrefused
            exact ⟨_, _, hone (.skipRefused hacl hrefused), hobjects, .done⟩
          · exact ⟨s', _, hone (.skip (Bool.not_eq_true _ ▸ hrefused)), hobjects, .done⟩
      | skipRefused acl refused => exact nomatch acl
  | transfer =>
      rw [hobjects] at hrelated
      cases h with
      | get answered =>
          rw [hobjects] at answered
          obtain ⟨s₁', u₁, hrun, hsame, hrelated₁⟩ := exists_fetched hitem answered hrelated
          exact ⟨s₁', u₁, hrun, hobjects.trans hsame.symm, hobjects ▸ hrelated₁⟩
      | getFails answered =>
          rw [hobjects] at answered
          obtain ⟨s₁', hrun, hsame⟩ := exists_getFailed hitem answered hrelated
          exact ⟨s₁', _, hrun, hobjects.trans hsame.symm, .done⟩
  | fetched body acl =>
      cases hrelated with
      | fetched accepted =>
          obtain ⟨s₁', hstep, hobjects₁, hdegrades⟩ :=
            h.of_accepted (Bool.false_and _) accepted hobjects
          exact ⟨s₁', _, hone hstep, hobjects₁, hdegrades⟩
  | refused contentType => exact nomatch hrelated
  | done r => exact nomatch h

/-! ## The same outcomes -/

def HasSameObjects (s s' : CopyState σ) : Prop := s.objects = s'.objects

/-- A relation between the statuses of a worker that asks for access lists or not and of
one that does so or not: the second one can follow each step of the first. -/
structure IsFollowed (answers : StoreAnswers T σ) (call : CopyCall σ)
    (bucketErrors : Str → Option Str) (acl acl' : Bool)
    (R : Str × Str → Objects σ → CopyStatus → CopyStatus → Prop) : Prop where
  waiting : ∀ item objects, R item objects .waiting .waiting
  step : ∀ {i item s t s₁ t₁ s' u}, call.items[i]? = some item →
    AnsweredCopy answers (call.withAcl acl) bucketErrors item s t s₁ t₁ →
    s.objects = s'.objects → R item s.objects t u →
    ∃ s₁' u₁, Relation.ReflTransGen
        (Alone (answeredAction answers (call.withAcl acl') bucketErrors) i) (s', u) (s₁', u₁) ∧
      s₁.objects = s₁'.objects ∧ R item s₁.objects t₁ u₁
  congr : ∀ {item objects objects' t u},
    objects' (call.sourceOf item) = objects (call.sourceOf item) →
    R item objects t u → R item objects' t u
  done : ∀ {item objects r u}, R item objects (.done r) u → u = .done r

section Followed

variable {acl acl' : Bool} {R : Str × Str → Objects σ → CopyStatus → CopyStatus → Prop}

theorem IsFollowed.simulation (h : IsFollowed answers call bucketErrors acl acl' R)
    (hsources : call.SourcesApart) :
    Simulation (answeredAction answers (call.withAcl acl) bucketErrors)
      (answeredAction answers (call.withAcl acl') bucketErrors) HasSameObjects
      (fun i s t u ↦ ∀ item, call.items[i]? = some item → R item s.objects t u) where
  own := by
    rintro i s t s₁ t₁ s' u ⟨item, hitem, hcopy⟩ hobjects hrelated
    have hitem : call.items[i]? = some item := hitem
    obtain ⟨s₁', u₁, hrun, hobjects₁, hrelated₁⟩ :=
      h.step hitem hcopy hobjects (hrelated item hitem)
    refine ⟨s₁', u₁, hrun, hobjects₁, fun item' hitem' ↦ ?_⟩
    obtain rfl : item = item' := Option.some.inj (hitem.symm.trans hitem')
    exact hrelated₁
  other := by
    rintro i j s t u v s₁ v₁ ⟨b, hb, hcopy⟩ hij hrelated a ha
    apply h.congr _ (hrelated a ha)
    exact hcopy.objects_eq (hsources j i b a hb ha hij.symm)

/-- Whatever the one call may lead to, the other may too. -/
theorem IsFollowed.copiesAnswered (h : IsFollowed answers call bucketErrors acl acl' R)
    (hsources : call.SourcesApart) {before after : Objects σ} {results : List CopyResult}
    (hcopies : CopiesAnswered answers (call.withAcl acl) bucketErrors before after results) :
    CopiesAnswered answers (call.withAcl acl') bucketErrors before after results := by
  obtain ⟨hlength, p, hrun, rfl, hdone⟩ := hcopies
  have hstart : ∀ (i : ℕ) item, call.items[i]? = some item → R item before .waiting .waiting :=
    fun _ item _ ↦ h.waiting item before
  obtain ⟨q, hrun', hobjects, hrelated⟩ := (h.simulation hsources).reachable ⟨rfl, hstart⟩ hrun
  refine ⟨hlength, q, hrun', hobjects.symm, fun i r hr ↦ ?_⟩
  obtain ⟨hi, _⟩ := List.getElem?_eq_some_iff.mp hr
  have hfollowed := hrelated i _ (List.getElem?_eq_getElem (hlength ▸ hi))
  rw [hdone i r hr] at hfollowed
  exact h.done hfollowed

end Followed

omit [DecidableEq σ] in
theorem Degrades.eq_done_right {item : Str × Str} {objects : Objects σ} {r : CopyResult}
    {u : CopyStatus} (h : Degrades answers call item objects (.done r) u) : u = .done r := by
  cases h
  rfl

omit [DecidableEq σ] in
theorem Degrades.eq_done_left {item : Str × Str} {objects : Objects σ} {r : CopyResult}
    {t : CopyStatus} (h : Degrades answers call item objects t (.done r)) : t = .done r := by
  cases h
  rfl

theorem isFollowed_plain :
    IsFollowed answers call bucketErrors true false (Degrades answers call) where
  waiting _ _ := .waiting
  step hitem hcopy hobjects hrelated := hcopy.followed hitem hobjects hrelated
  congr hsource hrelated := hrelated.congr hsource
  done := Degrades.eq_done_right

theorem isFollowed_public :
    IsFollowed answers call bucketErrors false true
      (fun item objects t u ↦ Degrades answers call item objects u t) where
  waiting _ _ := .waiting
  step hitem hcopy hobjects hrelated := hcopy.followed_public hitem hobjects hrelated
  congr hsource hrelated := hrelated.congr hsource
  done := Degrades.eq_done_left

/-- Whether it asks for public objects or not, the call may lead to the same. -/
theorem copiesAnswered_withAcl_iff (hsources : call.SourcesApart) {before after : Objects σ}
    {results : List CopyResult} :
    CopiesAnswered answers (call.withAcl true) bucketErrors before after results ↔
      CopiesAnswered answers (call.withAcl false) bucketErrors before after results :=
  ⟨isFollowed_plain.copiesAnswered hsources, isFollowed_public.copiesAnswered hsources⟩

end Follow

section Fallback

variable {answers : StoreAnswers T σ} {call : CopyCall σ} {bucketErrors : Str → Option Str}

/-- Asking for public objects, the call returns, with what it may return and store without
asking; and where the stores answer about one object at a time, with just that. -/
theorem public_copy_as_plain (answers : StoreAnswers T σ) (call : CopyCall σ)
    (bucketErrors : Str → Option Str) (before : Objects σ)
    (hdest : (call.items.map call.destOf).Nodup) (hsources : call.SourcesApart) :
    (∃ after results,
      CopiesAnswered answers (call.withAcl true) bucketErrors before after results) ∧
    (∀ after results,
      CopiesAnswered answers (call.withAcl true) bucketErrors before after results ↔
        CopiesAnswered answers (call.withAcl false) bucketErrors before after results) ∧
    (answers.IsLocal → ∀ after results after' results',
      CopiesAnswered answers (call.withAcl true) bucketErrors before after results →
      CopiesAnswered answers (call.withAcl false) bucketErrors before after' results' →
      results = results' ∧ ∀ l, contentAt after l = contentAt after' l) := by
  refine ⟨exists_copiesAnswered .., fun _ _ ↦ copiesAnswered_withAcl_iff hsources,
    fun hlocal after results after' results' hpublic hplain ↦ ?_⟩
  have hdest : ((call.withAcl false).items.map (call.withAcl false).destOf).Nodup := hdest
  have hsources' : (call.withAcl false).SourcesApart := hsources
  have hpublic := (copiesAnswered_withAcl_iff hsources).mp hpublic
  obtain ⟨hresults, hcontents, helsewhere⟩ := hpublic.determined hlocal hdest hsources'
  obtain ⟨hresults', hcontents', helsewhere'⟩ := hplain.determined hlocal hdest hsources'
  refine ⟨hresults.trans hresults'.symm, fun l ↦ ?_⟩
  by_cases hl : ∃ item ∈ call.items, call.destOf item = l
  · obtain ⟨item, hitem, rfl⟩ := hl
    exact (hcontents item hitem).trans (hcontents' item hitem).symm
  · have hne : ∀ item ∈ call.items, call.destOf item ≠ l := fun item hitem heq ↦
      hl ⟨item, hitem, heq⟩
    rw [contentAt, contentAt, helsewhere l hne, helsewhere' l hne]

/-! ## A source that is also a destination -/

/-- Without access lists, what is stored is what was stored somewhere. -/
def HasContents (C : Content → Prop) (s : CopyState σ) : Prop :=
  ∀ l c, contentAt s.objects l = some c → C c

def ReadsContents (C : Content → Prop) (_ : ℕ) (_ : CopyState σ) : CopyStatus → Prop
  | .fetched body acl => C body.content ∧ acl = false
  | .refused _ => False
  | _ => True

theorem hasContents_put {C : Content → Prop} {s : CopyState σ} (h : HasContents C s)
    (l : Location σ) {obj : StoredObject} (hobj : C obj.content) : HasContents C (s.put l obj) := by
  intro l' c hc
  by_cases hl : l' = l
  · subst hl
    rw [contentAt_put] at hc
    exact Option.some.inj hc ▸ hobj
  · rw [contentAt, CopyState.put_objects, Function.update_of_ne hl] at hc
    exact h l' c hc

theorem readsContents_stable {C : Content → Prop}
    (hstored : ∀ l objects c, C c → C (answers.storedContent l objects c)) :
    Stable (answeredAction answers (call.withAcl false) bucketErrors) (HasContents C)
      (ReadsContents C) where
  shared := by
    rintro i s t s' t' ⟨item, hitem, hcopy⟩ hcontents hreads
    cases hcopy with
    | upload accepted answered stores =>
        exact hasContents_put hcontents _ (stores ▸ hstored _ _ _ hreads.1)
    | uploadLost accepted answered stores =>
        exact hasContents_put hcontents _ (stores ▸ hstored _ _ _ hreads.1)
    | skipRefused acl refused => exact nomatch acl
    | uploadRefused refused => exact nomatch hreads.2
    | _ => exact hcontents
  own := by
    rintro i s t s' t' ⟨item, hitem, hcopy⟩ hcontents hreads
    cases hcopy with
    | get answered =>
        exact ⟨hcontents _ _ (congrArg (Option.map StoredObject.content)
          (StoreAnswers.objects_of_get answered)), rfl⟩
    | uploadRefused refused => exact nomatch hreads.2
    | getAgain answered => exact hreads.elim
    | _ => trivial
  other := fun _ _ _ _ h ↦ h

end Fallback

/-- The bucket of the copies takes no access lists. -/
def refusingCopies : StoreAnswers Tables.ascii Unit where
  aclError bucket :=
    if bucket = "copies".toList then
      some ⟨⟨"AccessControlListNotSupported".toList, "The bucket does not allow ACLs".toList⟩,
        by decide⟩
    else none
  headError _ _ := none
  getError _ _ := none
  noSuchKey _ := "NoSuchKey".toList
  uploadError _ _ _ := none
  defaultType _ _ := some "binary/octet-stream".toList

theorem refusingCopies_isLocal : refusingCopies.IsLocal :=
  ⟨fun _ _ _ _ ↦ rfl, fun _ _ _ _ ↦ rfl, fun _ _ _ _ _ ↦ ⟨rfl, rfl⟩⟩

/-- Two objects to be copied, the first to the copies, the second to the given bucket. -/
def copyPair (second : Str) : CopyCall Unit where
  items := [("media".toList, "a".toList), ("media".toList, "b".toList)]
  sourceProvider := ()
  destProvider := ()
  destBucket := none
  overwrite := true
  makePublic := true
  destKeyFn := some fun _ _ ↦ "a".toList
  destBucketFn := some fun _ key ↦ if key = "a".toList then "copies".toList else second

def pngImage : Content := ⟨[1], some "image/png".toList⟩

def webPage : Content := ⟨[2], some "text/html".toList⟩

def storedAs (c : Content) : StoredObject := ⟨c.bytes, c.contentType, [], 0, none⟩

def imageAndPage : Objects Unit := fun l ↦
  if l = ⟨(), "media".toList, "a".toList⟩ then some (storedAs pngImage)
  else if l = ⟨(), "media".toList, "b".toList⟩ then some (storedAs webPage) else none

theorem public_copy_as_plain_copyPair :
    (∃ after results, CopiesAnswered refusingCopies ((copyPair "pages".toList).withAcl true)
      (fun _ ↦ none) imageAndPage after results) ∧
    (∀ after results, CopiesAnswered refusingCopies ((copyPair "pages".toList).withAcl true)
        (fun _ ↦ none) imageAndPage after results ↔
      CopiesAnswered refusingCopies ((copyPair "pages".toList).withAcl false)
        (fun _ ↦ none) imageAndPage after results) ∧
    ∀ after results after' results',
      CopiesAnswered refusingCopies ((copyPair "pages".toList).withAcl true)
        (fun _ ↦ none) imageAndPage after results →
      CopiesAnswered refusingCopies ((copyPair "pages".toList).withAcl false)
        (fun _ ↦ none) imageAndPage after' results' →
      results = results' ∧ ∀ l, contentAt after l = contentAt after' l := by
  have hsources : (copyPair "pages".toList).SourcesApart := by
    have hapart : ∀ a ∈ (copyPair "pages".toList).items, ∀ b ∈ (copyPair "pages".toList).items,
        (copyPair "pages".toList).destOf a ≠ (copyPair "pages".toList).sourceOf b := by decide
    exact fun i j a b ha hb _ ↦ hapart a (List.mem_of_getElem? ha) b (List.mem_of_getElem? hb)
  obtain ⟨hreturns, hsame, hunique⟩ := public_copy_as_plain refusingCopies
    (copyPair "pages".toList) (fun _ ↦ none) imageAndPage (by decide) hsources
  exact ⟨hreturns, hsame, hunique refusingCopies_isLocal⟩

/-- The page replaces the image while the copy of the image has been refused. -/
theorem exists_copied_as_image : ∃ after results,
    CopiesAnswered refusingCopies ((copyPair "media".toList).withAcl true) (fun _ ↦ none)
      imageAndPage after results ∧
    contentAt after ⟨(), "copies".toList, "a".toList⟩ =
      some ⟨webPage.bytes, pngImage.contentType⟩ := by
  let call := (copyPair "media".toList).withAcl true
  let act := answeredAction refusingCopies call fun _ ↦ none
  let a : Str × Str := ("media".toList, "a".toList)
  let b : Str × Str := ("media".toList, "b".toList)
  let s₀ : CopyState Unit := ⟨imageAndPage, fun _ ↦ true⟩
  let s₁ := s₀.refuseAcl (call.resolveDestBucket a)
  let s₂ := s₁.put (call.destOf b) (storedAs webPage)
  let mixed := { storedAs webPage with contentType := pngImage.contentType }
  let s₃ := s₂.put (call.destOf a) mixed
  have hrefused : Relation.ReflTransGen (Alone act 0) (s₀, .waiting)
      (s₁, .refused pngImage.contentType) := by
    have hforce : Alone act 0 (s₀, .waiting) (s₀, .transfer) := ⟨a, rfl, .force rfl rfl⟩
    have hget : Alone act 0 (s₀, .transfer) (s₀, .fetched (storedAs pngImage) true) :=
      ⟨a, rfl, .get rfl⟩
    have hupload : Alone act 0 (s₀, .fetched (storedAs pngImage) true)
        (s₁, .refused pngImage.contentType) := ⟨a, rfl, .uploadRefused rfl⟩
    exact .head hforce (.head hget (.single hupload))
  have hreplaced : Relation.ReflTransGen (Alone act 1) (s₁, .waiting)
      (s₂, .done (call.copied b)) := by
    have hforce : Alone act 1 (s₁, .waiting) (s₁, .transfer) := ⟨b, rfl, .force rfl rfl⟩
    have hget : Alone act 1 (s₁, .transfer) (s₁, .fetched (storedAs webPage) true) :=
      ⟨b, rfl, .get rfl⟩
    have hupload : Alone act 1 (s₁, .fetched (storedAs webPage) true) (s₂, .done (call.copied b)) :=
      ⟨b, rfl, .upload rfl rfl rfl⟩
    exact .head hforce (.head hget (.single hupload))
  have hcopied : Relation.ReflTransGen (Alone act 0) (s₂, .refused pngImage.contentType)
      (s₃, .done (call.copied a)) := by
    have hget : Alone act 0 (s₂, .refused pngImage.contentType) (s₂, .fetched mixed false) :=
      ⟨a, rfl, .getAgain rfl⟩
    have hupload : Alone act 0 (s₂, .fetched mixed false) (s₃, .done (call.copied a)) :=
      ⟨a, rfl, .upload rfl rfl rfl⟩
    exact .head hget (.single hupload)
  have hrun₁ : Relation.ReflTransGen (Step act) (CopyStart imageAndPage) _ :=
    reaches_alone (i := 0) hrefused
  have hrun₂ := hrun₁.trans (reaches_alone (i := 1) hreplaced)
  have hrun₃ := hrun₂.trans (reaches_alone (i := 0) hcopied)
  refine ⟨_, [call.copied a, call.copied b], ⟨rfl, _, hrun₃, rfl, fun i r hr ↦ ?_⟩, rfl⟩
  match i, hr with
  | 0, hr => exact congrArg _ (Option.some.inj hr)
  | 1, hr => exact congrArg _ (Option.some.inj hr)

/-- The page is stored with the type of the image it has replaced, which no plain copy does. -/
theorem page_copied_as_image : ¬∀ (answers : StoreAnswers Tables.ascii Unit) (call : CopyCall Unit)
      (bucketErrors : Str → Option Str) (before : Objects Unit), answers.IsLocal →
    (call.items.map call.destOf).Nodup → ∀ after results,
      CopiesAnswered answers (call.withAcl true) bucketErrors before after results →
      ∃ after', CopiesAnswered answers (call.withAcl false) bucketErrors before after' results ∧
        ∀ l, contentAt after l = contentAt after' l := by
  intro h
  obtain ⟨after, results, hpublic, hmixed⟩ := exists_copied_as_image
  obtain ⟨after', ⟨_, p, hrun, rfl, _⟩, hsame⟩ :=
    h _ _ _ _ refusingCopies_isLocal (by decide) after results hpublic
  have hstored : ∀ l objects (c : Content), (c = pngImage ∨ c = webPage) →
      refusingCopies.storedContent l objects c = pngImage ∨
        refusingCopies.storedContent l objects c = webPage := by
    rintro l objects c (rfl | rfl)
    · exact .inl rfl
    · exact .inr rfl
  have hstart : Holds (HasContents fun c ↦ c = pngImage ∨ c = webPage)
      (ReadsContents fun c ↦ c = pngImage ∨ c = webPage) (CopyStart imageAndPage) := by
    refine ⟨fun l c hc ↦ ?_, fun _ ↦ trivial⟩
    change ((if l = _ then _ else if l = _ then _ else none).map StoredObject.content) = _ at hc
    split_ifs at hc
    · exact .inl (Option.some.inj hc).symm
    · exact .inr (Option.some.inj hc).symm
    · exact nomatch hc
  have hcontents := ((readsContents_stable hstored).reachable hstart hrun).1
  rcases hcontents _ _ ((hsame _).symm.trans hmixed) with himage | hpage
  · exact absurd himage (by decide)
  · exact absurd hpage (by decide)

end StorageReconciler
