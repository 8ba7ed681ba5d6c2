import StorageReconciler.Foundations.FirstOccurrences

/-!
# Insertion-ordered dictionaries

A dictionary remembers the order in which its keys were first inserted, and a
later assignment to a key keeps its place.  Both ways of filling one in a loop
are characterised: `setdefault` keeps the first value of each key, assignment
keeps the last.
-/

namespace StorageReconciler

open FirstOccurrences

/-- Entries in insertion order, at most one for each key. -/
structure OrderedDict (α β : Type*) where
  entries : List (α × β)
  nodup : (entries.map Prod.fst).Nodup

namespace OrderedDict

variable {α β : Type*} [DecidableEq α]

def empty : OrderedDict α β := ⟨[], List.nodup_nil⟩

def get? (d : OrderedDict α β) (k : α) : Option β :=
  (d.entries.find? fun e ↦ decide (e.1 = k)).map Prod.snd

def contains (d : OrderedDict α β) (k : α) : Bool := (d.get? k).isSome

theorem get?_eq_some_iff {d : OrderedDict α β} {k : α} {v : β} :
    d.get? k = some v ↔ (k, v) ∈ d.entries := by
  constructor
  · intro h
    obtain ⟨⟨k', v'⟩, hfind, hv⟩ := Option.map_eq_some_iff.mp h
    have hk : k' = k := by simpa using List.find?_some hfind
    have hmem := List.mem_of_find?_eq_some hfind
    rw [hk] at hmem
    exact hv ▸ hmem
  · intro hmem
    cases hfind : d.entries.find? fun e ↦ decide (e.1 = k) with
    | none =>
        have := List.find?_eq_none.mp hfind (k, v) hmem
        simp at this
    | some e =>
        have hek : e.1 = k := by simpa using List.find?_some hfind
        have heq : e = (k, v) :=
          List.inj_on_of_nodup_map d.nodup (List.mem_of_find?_eq_some hfind) hmem hek
        simp [get?, hfind, heq]

theorem get?_eq_none_iff {d : OrderedDict α β} {k : α} :
    d.get? k = none ↔ k ∉ d.entries.map Prod.fst := by
  rw [get?, Option.map_eq_none_iff, List.find?_eq_none]
  simp only [decide_eq_true_eq, List.mem_map, not_exists, not_and]

theorem contains_eq_false_iff {d : OrderedDict α β} {k : α} :
    d.contains k = false ↔ d.get? k = none := by
  simp [contains]

/-- `d.setdefault(k, v)`, read for its effect on the dictionary. -/
def setdefault (d : OrderedDict α β) (k : α) (v : β) : OrderedDict α β :=
  if h : d.get? k = none then
    { entries := d.entries ++ [(k, v)]
      nodup := by
        have hk := get?_eq_none_iff.mp h
        rw [List.map_append]
        refine List.nodup_append.mpr ⟨d.nodup, by simp, fun a ha b hb ↦ ?_⟩
        have hbk : b = k := by simpa using hb
        rintro rfl
        exact hk (hbk ▸ ha) }
  else d

/-- `d[k] = v`. -/
def insert (d : OrderedDict α β) (k : α) (v : β) : OrderedDict α β :=
  if d.get? k = none then d.setdefault k v
  else
    { entries := d.entries.map fun e ↦ if e.1 = k then (k, v) else e
      nodup := by
        have hkeys : (d.entries.map fun e ↦ if e.1 = k then (k, v) else e).map Prod.fst =
            d.entries.map Prod.fst := by
          rw [List.map_map]
          apply List.map_congr_left
          intro e _
          by_cases he : e.1 = k <;> simp [he]
        rw [hkeys]
        exact d.nodup }

def values (d : OrderedDict α β) : List β := d.entries.map Prod.snd

/-- `d.pop(next(iter(d)))`. -/
def popOldest (d : OrderedDict α β) : OrderedDict α β :=
  { entries := d.entries.tail
    nodup := by
      rw [List.map_tail]
      exact d.nodup.tail }

@[simp] theorem get?_empty (k : α) : (empty : OrderedDict α β).get? k = none := rfl

theorem get?_setdefault (d : OrderedDict α β) (k k' : α) (v : β) :
    (d.setdefault k v).get? k' = if k' = k then some ((d.get? k).getD v) else d.get? k' := by
  unfold setdefault
  split_ifs with h hk hk
  · subst hk
    rw [h]
    exact get?_eq_some_iff.mpr (by simp)
  · have hne : decide (k = k') = false := by simpa using fun h ↦ hk h.symm
    simp [get?, List.find?_append, hne]
  · subst hk
    cases hget : d.get? k' with
    | none => exact absurd hget h
    | some w => rfl
  · rfl

theorem get?_insert (d : OrderedDict α β) (k k' : α) (v : β) :
    (d.insert k v).get? k' = if k' = k then some v else d.get? k' := by
  unfold insert
  split_ifs with h hk hk
  · subst hk
    simp [get?_setdefault, h]
  · simp [get?_setdefault, hk]
  · subst hk
    rw [get?_eq_some_iff, List.mem_map]
    cases hget : d.get? k' with
    | none => exact absurd hget h
    | some w => exact ⟨(k', w), get?_eq_some_iff.mp hget, by simp⟩
  · apply Option.ext
    intro w
    rw [get?_eq_some_iff, get?_eq_some_iff, List.mem_map]
    constructor
    · rintro ⟨e, he, heq⟩
      split_ifs at heq with hek
      · exact absurd (congrArg Prod.fst heq).symm hk
      · exact heq ▸ he
    · intro hmem
      exact ⟨(k', w), hmem, by simp [hk]⟩

theorem get?_foldl_setdefault (l : List (α × β)) (d : OrderedDict α β) (k : α) :
    (l.foldl (fun d e ↦ d.setdefault e.1 e.2) d).get? k =
      (d.get? k).or ((l.find? fun e ↦ decide (e.1 = k)).map Prod.snd) := by
  induction l generalizing d with
  | nil => simp
  | cons e l ih =>
      rw [List.foldl_cons, ih, get?_setdefault]
      by_cases hk : e.1 = k
      · subst hk
        cases hget : d.get? e.1 <;> simp
      · have hk' : ¬k = e.1 := fun h ↦ hk h.symm
        simp [hk, hk']

theorem get?_foldl_insert (l : List (α × β)) (d : OrderedDict α β) (k : α) :
    (l.foldl (fun d e ↦ d.insert e.1 e.2) d).get? k =
      ((l.reverse.find? fun e ↦ decide (e.1 = k)).map Prod.snd).or (d.get? k) := by
  induction l generalizing d with
  | nil => simp
  | cons e l ih =>
      rw [List.foldl_cons, ih, get?_insert, List.reverse_cons, List.find?_append]
      cases hfind : l.reverse.find? fun e ↦ decide (e.1 = k) with
      | some e' => simp
      | none =>
          by_cases hk : e.1 = k
          · simp [hk]
          · have hk' : ¬k = e.1 := fun h ↦ hk h.symm
            simp [hk, hk']

theorem entries_setdefault_of_notMem {d : OrderedDict α β} {k : α}
    (hk : k ∉ d.entries.map Prod.fst) (v : β) :
    (d.setdefault k v).entries = d.entries ++ [(k, v)] := by
  rw [setdefault, dif_pos (get?_eq_none_iff.mpr hk)]

theorem entries_insert_of_notMem {d : OrderedDict α β} {k : α}
    (hk : k ∉ d.entries.map Prod.fst) (v : β) :
    (d.insert k v).entries = d.entries ++ [(k, v)] := by
  rw [insert, if_pos (get?_eq_none_iff.mpr hk), entries_setdefault_of_notMem hk]

theorem entries_foldl_insert (l : List (α × β)) (d : OrderedDict α β)
    (h : ((d.entries ++ l).map Prod.fst).Nodup) :
    (l.foldl (fun d e ↦ d.insert e.1 e.2) d).entries = d.entries ++ l := by
  induction l generalizing d with
  | nil => simp
  | cons e l ih =>
      have hnew : e.1 ∉ d.entries.map Prod.fst := by
        rw [List.map_append, List.map_cons] at h
        exact fun hmem ↦ (List.nodup_append.mp h).2.2 e.1 hmem e.1 (by simp) rfl
      have hentries := entries_insert_of_notMem hnew e.2
      calc
        ((e :: l).foldl (fun d e ↦ d.insert e.1 e.2) d).entries =
            (d.insert e.1 e.2).entries ++ l := ih _ (by simpa [hentries] using h)
        _ = (d.entries ++ [e]) ++ l := by rw [hentries]
        _ = d.entries ++ e :: l := by rw [List.append_assoc, List.singleton_append]

/-! ## The order of the entries -/

theorem entries_foldl_setdefault (l : List (α × β)) (d : OrderedDict α β) :
    (l.foldl (fun d e ↦ d.setdefault e.1 e.2) d).entries =
      d.entries ++ firsts Prod.fst (d.entries.map Prod.fst) l := by
  induction l generalizing d with
  | nil => simp [firsts]
  | cons e l ih =>
      rw [List.foldl_cons, ih, firsts]
      split_ifs with hmem
      · have hset : d.setdefault e.1 e.2 = d := by
          rw [setdefault, dif_neg fun h ↦ get?_eq_none_iff.mp h hmem]
        rw [hset]
      · have hkeys : ∀ k, k ∈ (d.entries ++ [e]).map Prod.fst ↔
            k ∈ e.1 :: d.entries.map Prod.fst := by
          intro k
          rw [List.map_append]
          exact List.perm_append_singleton _ _ |>.mem_iff
        rw [entries_setdefault_of_notMem hmem, firsts_congr hkeys, List.append_assoc]
        rfl

theorem keys_insert_of_mem {d : OrderedDict α β} {k : α} (hk : k ∈ d.entries.map Prod.fst)
    (v : β) : (d.insert k v).entries.map Prod.fst = d.entries.map Prod.fst := by
  rw [insert, if_neg fun h ↦ get?_eq_none_iff.mp h hk, List.map_map]
  apply List.map_congr_left
  intro e _
  by_cases he : e.1 = k <;> simp [he]

theorem keys_foldl_insert (l : List (α × β)) (d : OrderedDict α β) :
    (l.foldl (fun d e ↦ d.insert e.1 e.2) d).entries.map Prod.fst =
      d.entries.map Prod.fst ++ (firsts Prod.fst (d.entries.map Prod.fst) l).map Prod.fst := by
  induction l generalizing d with
  | nil => simp [firsts]
  | cons e l ih =>
      rw [List.foldl_cons, ih, firsts]
      split_ifs with hmem
      · rw [keys_insert_of_mem hmem]
      · have hkeys : ∀ k, k ∈ (d.entries ++ [e]).map Prod.fst ↔
            k ∈ e.1 :: d.entries.map Prod.fst := by
          intro k
          rw [List.map_append]
          exact List.perm_append_singleton _ _ |>.mem_iff
        rw [entries_insert_of_notMem hmem, firsts_congr hkeys, List.map_append, List.map_cons,
          List.append_assoc]
        rfl

theorem entries_insert_of_get? {d : OrderedDict α β} {k : α} {w : β} (h : d.get? k = some w)
    (v : β) : ∃ before after, d.entries = before ++ (k, w) :: after ∧
      (d.insert k v).entries = before ++ (k, v) :: after := by
  obtain ⟨before, after, hsplit⟩ := List.append_of_mem (get?_eq_some_iff.mp h)
  refine ⟨before, after, hsplit, ?_⟩
  have hnodup := d.nodup
  rw [hsplit, List.map_append, List.map_cons, List.nodup_middle, List.nodup_cons,
    List.mem_append] at hnodup
  have hother : ∀ l : List (α × β), k ∉ l.map Prod.fst →
      l.map (fun e ↦ if e.1 = k then (k, v) else e) = l := by
    intro l hl
    refine (List.map_congr_left fun e he ↦ if_neg ?_).trans l.map_id
    rintro rfl
    exact hl (List.mem_map_of_mem he)
  rw [insert, if_neg (by rw [h]; exact Option.some_ne_none w)]
  change d.entries.map _ = _
  calc
    d.entries.map (fun e ↦ if e.1 = k then (k, v) else e) =
        before.map (fun e ↦ if e.1 = k then (k, v) else e) ++
          (if k = k then (k, v) else (k, w)) ::
            after.map (fun e ↦ if e.1 = k then (k, v) else e) := by
      rw [hsplit, List.map_append, List.map_cons]
    _ = before ++ (k, v) :: after := by
      rw [hother before fun hmem ↦ hnodup.1 (.inl hmem),
        hother after fun hmem ↦ hnodup.1 (.inr hmem), if_pos rfl]

end OrderedDict

end StorageReconciler
