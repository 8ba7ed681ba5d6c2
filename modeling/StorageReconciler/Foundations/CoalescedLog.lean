import Mathlib.Data.List.Sort
import StorageReconciler.Foundations.OrderedDict

/-!
# Logs that keep the latest event of each key

Events are numbered as they are appended.  An event with a key takes the place of
the earlier one of that key, the others stay.  A reader that asks again and again
for what lies above the last number it has seen obtains every event without a key
once, and the latest event of each key.
-/

namespace StorageReconciler.CoalescedLog

variable {κ α : Type*}

structure EventLog (κ α : Type*) where
  sequence : ℕ
  events : OrderedDict (κ ⊕ ℕ) (ℕ × α)

namespace EventLog

variable [DecidableEq κ]

def empty : EventLog κ α := ⟨0, .empty⟩

def slot (key : Option κ) (n : ℕ) : κ ⊕ ℕ :=
  match key with
  | some k => .inl k
  | none => .inr n

def append (log : EventLog κ α) (key : Option κ) (e : α) : EventLog κ α :=
  ⟨log.sequence + 1, log.events.insert (slot key (log.sequence + 1)) (log.sequence + 1, e)⟩

/-- The events above a number, in order. -/
def after (log : EventLog κ α) (cursor : ℕ) : List (ℕ × α) :=
  (log.events.values.filter fun x ↦ decide (cursor < x.1)).insertionSort fun x y ↦ x.1 ≤ y.1

end EventLog

open EventLog

/-! ## The current events of a history -/

section Current

variable (keyOf : α → Option κ)

/-- The event at a place of the history has no key, or no later event has the same one. -/
def Current (es : List α) (s : ℕ) (e : α) : Prop :=
  es[s]? = some e ∧ ∀ k, keyOf e = some k → ∀ s' e', s < s' → es[s']? = some e' →
    keyOf e' ≠ some k

variable {keyOf}

theorem Current.lt_length {es : List α} {s : ℕ} {e : α} (h : Current keyOf es s e) :
    s < es.length := (List.getElem?_eq_some_iff.mp h.1).1

theorem Current.take {es : List α} {s : ℕ} {e : α} (h : Current keyOf es s e) {m : ℕ}
    (hm : s < m) : Current keyOf (es.take m) s e := by
  refine ⟨by rw [List.getElem?_take_of_lt hm]; exact h.1, ?_⟩
  intro k hk s' e' hs he'
  rw [List.getElem?_take] at he'
  split_ifs at he' with hs'
  exact h.2 k hk s' e' hs he'

theorem current_last (es : List α) (e : α) : Current keyOf (es ++ [e]) es.length e := by
  refine ⟨by simp, ?_⟩
  intro k _ s' e' hs he'
  obtain ⟨hlt, _⟩ := List.getElem?_eq_some_iff.mp he'
  rw [List.length_append, List.length_singleton] at hlt
  omega

theorem slot_eq_slot {key key' : Option κ} {n n' : ℕ} (h : slot key n = slot key' n') :
    key = key' ∧ (key = none → n = n') := by
  cases key with
  | none =>
      cases key' with
      | none => exact ⟨rfl, fun _ ↦ Sum.inr.inj h⟩
      | some k => cases h
  | some k =>
      cases key' with
      | none => cases h
      | some k' => exact ⟨congrArg some (Sum.inl.inj h), fun hnone ↦ nomatch hnone⟩

/-- A new event replaces the one of its key, if it has one. -/
theorem current_append {es : List α} {e x : α} {s : ℕ} :
    Current keyOf (es ++ [e]) s x ↔
      s = es.length ∧ x = e ∨
        Current keyOf es s x ∧ slot (keyOf x) (s + 1) ≠ slot (keyOf e) (es.length + 1) := by
  constructor
  · intro h
    by_cases hs : s = es.length
    · subst hs
      have hget := h.1
      rw [List.getElem?_concat_length] at hget
      exact .inl ⟨rfl, (Option.some.inj hget).symm⟩
    · have hlt : s < es.length := by
        have := h.lt_length
        rw [List.length_append, List.length_singleton] at this
        omega
      have hcurrent := h.take hlt
      rw [List.take_left' rfl] at hcurrent
      refine .inr ⟨hcurrent, ?_⟩
      intro hslot
      obtain ⟨hkey, hnumber⟩ := slot_eq_slot hslot
      cases hx : keyOf x with
      | none => exact hs (Nat.succ.inj (hnumber hx))
      | some k => exact h.2 k hx es.length e hlt (by simp) (hkey ▸ hx)
  · rintro (⟨rfl, rfl⟩ | ⟨h, hslot⟩)
    · exact current_last es x
    · refine ⟨by rw [List.getElem?_append_left h.lt_length]; exact h.1, ?_⟩
      intro k hk s' e' hs he'
      by_cases hs' : s' < es.length
      · rw [List.getElem?_append_left hs'] at he'
        exact h.2 k hk s' e' hs he'
      · rintro hke'
        obtain ⟨hlt, _⟩ := List.getElem?_eq_some_iff.mp he'
        rw [List.length_append, List.length_singleton] at hlt
        obtain rfl : s' = es.length := by omega
        rw [List.getElem?_concat_length] at he'
        obtain rfl := Option.some.inj he'
        exact hslot (by rw [hk, hke']; rfl)

end Current

/-! ## What a log holds -/

section Represents

variable [DecidableEq κ]

/-- The log holds the current events of the history, each in its slot. -/
structure Represents (keyOf : α → Option κ) (log : EventLog κ α) (es : List α) : Prop where
  sequence : log.sequence = es.length
  get? : ∀ key x, log.events.get? key = some x ↔
    ∃ s, Current keyOf es s x.2 ∧ x.1 = s + 1 ∧ key = slot (keyOf x.2) (s + 1)

variable {keyOf : α → Option κ}

theorem represents_empty : Represents keyOf (EventLog.empty : EventLog κ α) [] := by
  refine ⟨rfl, ?_⟩
  intro key x
  apply iff_of_false (by simp [EventLog.empty])
  rintro ⟨s, hcurrent, _⟩
  exact absurd hcurrent.lt_length (Nat.not_lt_zero s)

theorem Represents.append {log : EventLog κ α} {es : List α} (h : Represents keyOf log es)
    (e : α) : Represents keyOf (log.append (keyOf e) e) (es ++ [e]) := by
  refine ⟨by simp [EventLog.append, h.sequence], ?_⟩
  intro key x
  have hget : (log.append (keyOf e) e).events.get? key =
      if key = slot (keyOf e) (es.length + 1) then some (es.length + 1, e)
      else log.events.get? key := by
    rw [EventLog.append, OrderedDict.get?_insert, h.sequence]
  rw [hget]
  simp only [current_append]
  constructor
  · intro hx
    split_ifs at hx with hkey
    · obtain rfl := Option.some.inj hx
      exact ⟨es.length, .inl ⟨rfl, rfl⟩, rfl, hkey⟩
    · obtain ⟨s, hcurrent, hn, hslot⟩ := (h.get? key x).mp hx
      exact ⟨s, .inr ⟨hcurrent, hslot ▸ hkey⟩, hn, hslot⟩
  · rintro ⟨s, ⟨rfl, hx⟩ | ⟨hcurrent, hne⟩, hn, hslot⟩
    · rw [hslot, hx, if_pos rfl]
      exact congrArg some (Prod.ext hn.symm hx.symm)
    · rw [hslot, if_neg hne]
      exact (h.get? _ x).mpr ⟨s, hcurrent, hn, rfl⟩

theorem Represents.mem_values {log : EventLog κ α} {es : List α} (h : Represents keyOf log es)
    {x : ℕ × α} : x ∈ log.events.values ↔ ∃ s, x.1 = s + 1 ∧ Current keyOf es s x.2 := by
  rw [OrderedDict.values, List.mem_map]
  constructor
  · rintro ⟨⟨key, x⟩, hmem, rfl⟩
    obtain ⟨s, hcurrent, hn, _⟩ := (h.get? key x).mp (OrderedDict.get?_eq_some_iff.mpr hmem)
    exact ⟨s, hn, hcurrent⟩
  · rintro ⟨s, hn, hcurrent⟩
    have hget := (h.get? _ x).mpr ⟨s, hcurrent, hn, rfl⟩
    exact ⟨_, OrderedDict.get?_eq_some_iff.mp hget, rfl⟩

theorem Represents.mem_after {log : EventLog κ α} {es : List α} (h : Represents keyOf log es)
    {cursor : ℕ} {x : ℕ × α} :
    x ∈ log.after cursor ↔ cursor < x.1 ∧ ∃ s, x.1 = s + 1 ∧ Current keyOf es s x.2 := by
  rw [EventLog.after, List.mem_insertionSort, List.mem_filter, h.mem_values, decide_eq_true_eq,
    and_comm]

theorem Represents.pairwise_after {log : EventLog κ α} {es : List α}
    (h : Represents keyOf log es) (cursor : ℕ) :
    (log.after cursor).Pairwise fun x y ↦ x.1 < y.1 := by
  have hapart : log.events.values.Pairwise fun x y ↦ x.1 ≠ y.1 := by
    rw [OrderedDict.values, List.pairwise_map]
    have hkeys := List.pairwise_map.mp log.events.nodup
    apply hkeys.imp_of_mem
    rintro ⟨key, x⟩ ⟨key', y⟩ hx hy hne hsame
    obtain ⟨s, hcurrent, hn, rfl⟩ := (h.get? key x).mp (OrderedDict.get?_eq_some_iff.mpr hx)
    obtain ⟨s', hcurrent', hn', rfl⟩ := (h.get? key' y).mp (OrderedDict.get?_eq_some_iff.mpr hy)
    obtain rfl : s = s' := by
      have : x.1 = y.1 := hsame
      omega
    have hxy : x.2 = y.2 := Option.some.inj (hcurrent.1.symm.trans hcurrent'.1)
    exact hne (by rw [hxy])
  have hdistinct := (List.perm_insertionSort (fun x y : ℕ × α ↦ x.1 ≤ y.1) _).pairwise_iff
    (fun hxy ↦ Ne.symm hxy) |>.mpr (hapart.filter fun x ↦ decide (cursor < x.1))
  have hsorted := List.pairwise_insertionSort (fun x y : ℕ × α ↦ x.1 ≤ y.1)
    (log.events.values.filter fun x ↦ decide (cursor < x.1))
  exact (hsorted.and hdistinct).imp fun hxy ↦ lt_of_le_of_ne hxy.1 hxy.2

end Represents

/-! ## The latest event of a kind -/

section Latest

variable {β : Type*}

/-- The event at a place of the history is of the kind, and no later one is. -/
structure IsLatest (P : β → Prop) (xs : List β) (s : ℕ) (x : β) : Prop where
  at_place : xs[s]? = some x
  kind : P x
  later : ∀ s' x', s < s' → xs[s']? = some x' → ¬ P x'

variable {P : β → Prop} {xs : List β} {s : ℕ} {x y : β}

theorem isLatest_last (hx : P x) : IsLatest P (xs ++ [x]) xs.length x := by
  refine ⟨List.getElem?_concat_length, hx, ?_⟩
  intro s' x' hs hx'
  obtain ⟨hlt, _⟩ := List.getElem?_eq_some_iff.mp hx'
  rw [List.length_append, List.length_singleton] at hlt
  omega

theorem IsLatest.append (h : IsLatest P xs s x) (hy : ¬ P y) : IsLatest P (xs ++ [y]) s x := by
  obtain ⟨hlt, _⟩ := List.getElem?_eq_some_iff.mp h.at_place
  refine ⟨(List.getElem?_append_left hlt).trans h.at_place, h.kind, ?_⟩
  intro s' x' hs hx'
  by_cases hs' : s' < xs.length
  · rw [List.getElem?_append_left hs'] at hx'
    exact h.later s' x' hs hx'
  · obtain ⟨hlt', _⟩ := List.getElem?_eq_some_iff.mp hx'
    rw [List.length_append, List.length_singleton] at hlt'
    obtain rfl : s' = xs.length := by omega
    rw [List.getElem?_concat_length] at hx'
    exact Option.some.inj hx' ▸ hy

variable {keyOf : α → Option κ} {f : β → α}

theorem IsLatest.current (h : IsLatest P xs s x)
    (hkey : ∀ s' y, s < s' → xs[s']? = some y → ∀ k, keyOf (f x) = some k →
      keyOf (f y) = some k → P y) :
    Current keyOf (xs.map f) s (f x) := by
  refine ⟨by rw [List.getElem?_map, h.at_place, Option.map_some], ?_⟩
  intro k hk s' e hs he hke
  rw [List.getElem?_map] at he
  obtain ⟨y, hy, rfl⟩ := Option.map_eq_some_iff.mp he
  exact h.later s' y hs hy (hkey s' y hs hy k hk hke)

variable [DecidableEq κ]

theorem Represents.mem_of_isLatest {log : EventLog κ α}
    (hlog : Represents keyOf log (xs.map f)) (h : IsLatest P xs s x)
    (hkey : ∀ s' y, s < s' → xs[s']? = some y → ∀ k, keyOf (f x) = some k →
      keyOf (f y) = some k → P y) :
    (s + 1, f x) ∈ log.events.values :=
  hlog.mem_values.mpr ⟨s, rfl, h.current hkey⟩

theorem Represents.notMem_of_later {log : EventLog κ α} {es : List α}
    (hlog : Represents keyOf log es) {e e' : α} {s' : ℕ} {k : κ} (hs : s < s')
    (he' : es[s']? = some e') (hk : keyOf e = some k) (hk' : keyOf e' = some k) :
    (s + 1, e) ∉ log.events.values := by
  intro hmem
  obtain ⟨n, hn, hcurrent⟩ := hlog.mem_values.mp hmem
  obtain rfl : s = n := Nat.succ.inj hn
  exact hcurrent.2 k hk s' e' hs he' hk'

end Latest

/-! ## What a reader has seen -/

section Covers

variable {keyOf : α → Option κ}

/-- The numbered events are some of the history, in order and with all current ones. -/
structure Covers (keyOf : α → Option κ) (es : List α) (xs : List (ℕ × α)) : Prop where
  increasing : xs.Pairwise fun x y ↦ x.1 < y.1
  genuine : ∀ x ∈ xs, ∃ s, x.1 = s + 1 ∧ es[s]? = some x.2
  complete : ∀ s e, Current keyOf es s e → (s + 1, e) ∈ xs

theorem covers_nil : Covers keyOf ([] : List α) [] := by
  refine ⟨List.Pairwise.nil, by simp, ?_⟩
  intro s e hcurrent
  exact absurd hcurrent.lt_length (Nat.not_lt_zero s)

theorem Covers.le_length {es : List α} {xs : List (ℕ × α)} (h : Covers keyOf es xs) {x : ℕ × α}
    (hx : x ∈ xs) : x.1 ≤ es.length := by
  obtain ⟨s, hn, hget⟩ := h.genuine x hx
  obtain ⟨hlt, _⟩ := List.getElem?_eq_some_iff.mp hget
  omega

/-- Every event without a key is there, once and at its number. -/
theorem Covers.once {es : List α} {xs : List (ℕ × α)} (h : Covers keyOf es xs) {s : ℕ} {e : α}
    (hget : es[s]? = some e) (hkey : keyOf e = none) :
    xs.filter (fun x ↦ decide (x.1 = s + 1)) = [(s + 1, e)] := by
  have hmem : (s + 1, e) ∈ xs := by
    refine h.complete s e ⟨hget, ?_⟩
    intro k hk
    rw [hkey] at hk
    cases hk
  obtain ⟨before, after, rfl⟩ := List.append_of_mem hmem
  obtain ⟨_, hafter, hbefore⟩ := List.pairwise_append.mp h.increasing
  have hnone : before.filter (fun x ↦ decide (x.1 = s + 1)) = [] := by
    rw [List.filter_eq_nil_iff]
    intro x hx
    have := hbefore x hx (s + 1, e) List.mem_cons_self
    simpa using this.ne
  have hnone' : after.filter (fun x ↦ decide (x.1 = s + 1)) = [] := by
    rw [List.filter_eq_nil_iff]
    intro x hx
    have := List.rel_of_pairwise_cons hafter hx
    simpa using this.ne'
  rw [List.filter_append, List.filter_cons, hnone, hnone']
  simp

/-- The events without a key that were seen are those of the history, in its order. -/
theorem Covers.unkeyed {es : List α} {xs : List (ℕ × α)} (h : Covers keyOf es xs) :
    (xs.map Prod.snd).filter (fun e ↦ (keyOf e).isNone) = es.filter fun e ↦ (keyOf e).isNone := by
  let numbered := (es.zipIdx 1).map Prod.swap
  have hnumbered : ∀ x : ℕ × α, x ∈ numbered ↔ ∃ s, x.1 = s + 1 ∧ es[s]? = some x.2 := by
    rintro ⟨n, e⟩
    simp only [numbered, List.mem_map, Prod.exists, Prod.swap_prod_mk, Prod.mk.injEq]
    constructor
    · rintro ⟨e', n', hx, rfl, rfl⟩
      obtain ⟨hle, hget⟩ := List.mk_mem_zipIdx_iff_le_and_getElem?_sub.mp hx
      exact ⟨n' - 1, by omega, hget⟩
    · rintro ⟨s, rfl, hget⟩
      exact ⟨e, s + 1, List.mk_mem_zipIdx_iff_le_and_getElem?_sub.mpr ⟨by omega, hget⟩, rfl, rfl⟩
  have hsorted : numbered.Pairwise fun x y ↦ x.1 < y.1 := by
    have hnumbers : ((es.zipIdx 1).map Prod.snd).Pairwise (· < ·) := by
      rw [List.zipIdx_map_snd]
      exact List.pairwise_lt_range'
    exact List.pairwise_map.mpr (List.pairwise_map.mp hnumbers)
  have hvalues : numbered.map Prod.snd = es := by
    rw [List.map_map]
    exact List.zipIdx_map_fst 1 es
  have hseen : ∀ x, x ∈ xs.filter (fun x ↦ (keyOf x.2).isNone) ↔
      x ∈ numbered.filter fun x ↦ (keyOf x.2).isNone := by
    intro x
    rw [List.mem_filter, List.mem_filter, hnumbered]
    refine and_congr_left fun hkey ↦ ⟨h.genuine x, ?_⟩
    rintro ⟨s, hn, hget⟩
    have hcurrent : Current keyOf es s x.2 := by
      refine ⟨hget, fun k hk ↦ ?_⟩
      rw [hk] at hkey
      exact nomatch hkey
    have hmem := h.complete s x.2 hcurrent
    rwa [← hn] at hmem
  have heq : xs.filter (fun x ↦ (keyOf x.2).isNone) =
      numbered.filter fun x ↦ (keyOf x.2).isNone := by
    have : Std.Irrefl fun x y : ℕ × α ↦ x.1 < y.1 := ⟨fun x ↦ lt_irrefl x.1⟩
    have : Std.Antisymm fun x y : ℕ × α ↦ x.1 < y.1 := ⟨fun _ _ hxy hyx ↦ absurd hxy hyx.asymm⟩
    exact (h.increasing.filter _).eq_of_mem_iff (hsorted.filter _) hseen
  rw [← hvalues, List.filter_map, List.filter_map]
  exact congrArg (List.map Prod.snd) heq

variable [DecidableEq κ]

/-- A reader that has seen the history up to its cursor and asks for what lies above
has seen all of it. -/
theorem Covers.append_after {log : EventLog κ α} {es : List α} {cursor : ℕ}
    {xs : List (ℕ × α)} (h : Covers keyOf (es.take cursor) xs) (hlog : Represents keyOf log es) :
    Covers keyOf es (xs ++ log.after cursor) := by
  refine ⟨?_, ?_, ?_⟩
  · refine List.pairwise_append.mpr ⟨h.increasing, hlog.pairwise_after cursor, ?_⟩
    intro x hx y hy
    have hle := (h.le_length hx).trans (List.length_take_le cursor es)
    exact hle.trans_lt (hlog.mem_after.mp hy).1
  · intro x hx
    rcases List.mem_append.mp hx with hx | hx
    · obtain ⟨s, hn, hget⟩ := h.genuine x hx
      rw [List.getElem?_take] at hget
      split_ifs at hget
      exact ⟨s, hn, hget⟩
    · obtain ⟨_, s, hn, hcurrent⟩ := hlog.mem_after.mp hx
      exact ⟨s, hn, hcurrent.1⟩
  · intro s e hcurrent
    rw [List.mem_append]
    by_cases hs : s < cursor
    · exact .inl (h.complete s e (hcurrent.take hs))
    · exact .inr (hlog.mem_after.mpr ⟨by omega, s, rfl, hcurrent⟩)

theorem Represents.le_length {log : EventLog κ α} {es : List α} (h : Represents keyOf log es)
    {cursor : ℕ} {x : ℕ × α} (hx : x ∈ log.after cursor) : x.1 ≤ es.length := by
  obtain ⟨_, s, hn, hcurrent⟩ := h.mem_after.mp hx
  have := hcurrent.lt_length
  omega

theorem Represents.exists_last_mem_after {log : EventLog κ α} {es : List α}
    (h : Represents keyOf log es) {cursor : ℕ} (hlt : cursor < es.length) :
    ∃ e, (es.length, e) ∈ log.after cursor := by
  obtain ⟨before, e, rfl⟩ : ∃ before e, es = before ++ [e] := by
    have hne : es ≠ [] := by
      rintro rfl
      exact absurd hlt (Nat.not_lt_zero cursor)
    exact ⟨es.dropLast, es.getLast hne, (List.dropLast_append_getLast hne).symm⟩
  exact ⟨e, h.mem_after.mpr ⟨hlt, before.length, by simp, current_last before e⟩⟩

theorem Represents.getLastD_after {log : EventLog κ α} {es : List α}
    (h : Represents keyOf log es) {cursor : ℕ} (hcursor : cursor ≤ es.length) :
    ((log.after cursor).map Prod.fst).getLastD cursor = es.length := by
  rcases Nat.lt_or_eq_of_le hcursor with hlt | rfl
  · obtain ⟨e, hmem⟩ := h.exists_last_mem_after hlt
    obtain ⟨before, after, hsplit⟩ := List.append_of_mem hmem
    have hafter : after = [] := by
      rw [List.eq_nil_iff_forall_not_mem]
      intro y hy
      have hsorted := h.pairwise_after cursor
      rw [hsplit] at hsorted
      have hgt : es.length < y.1 :=
        List.rel_of_pairwise_cons (List.pairwise_append.mp hsorted).2.1 hy
      have hmem' : y ∈ log.after cursor := by
        rw [hsplit]
        exact List.mem_append_right _ (List.mem_cons_of_mem _ hy)
      exact absurd (h.le_length hmem') (Nat.not_le.mpr hgt)
    rw [hsplit, hafter]
    simp
  · have hnone : log.after es.length = [] := by
      rw [List.eq_nil_iff_forall_not_mem]
      intro y hy
      exact absurd (h.le_length hy) (Nat.not_le.mpr (h.mem_after.mp hy).1)
    rw [hnone]
    rfl

end Covers

end StorageReconciler.CoalescedLog
