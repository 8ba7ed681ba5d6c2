import Mathlib.Data.List.Nodup
import Mathlib.Data.List.Perm.Subperm
import Mathlib.Data.List.Range
import Mathlib.Data.Option.Basic
import Mathlib.Logic.Function.Basic
import Mathlib.Logic.Relation

/-!
# Workers that are counted and tell of their work

Each worker raises a shared counter once and then, any time later, tells of its work
together with the number it got.  The numbers are told once each, and when all
workers have told, they are the numbers up to that of the workers.
-/

namespace StorageReconciler.Tallies

variable {π : Type*}

/-- How far a worker is: not counted, counted, or done with telling. -/
inductive Stage (π : Type*) where
  | due
  | counted (number : ℕ)
  | told (number : ℕ) (value : π)

namespace Stage

def number? : Stage π → Option ℕ
  | due => none
  | counted number => some number
  | told number _ => some number

def told? : Stage π → Option (ℕ × π)
  | told number value => some (number, value)
  | _ => none

end Stage

/-- The counter, the workers, and what was told so far. -/
structure Tally (π : Type*) where
  counter : ℕ
  stage : ℕ → Stage π
  log : List (ℕ × π)

def Tally.start : Tally π := ⟨0, fun _ ↦ .due, []⟩

def Tally.AllTold (t : Tally π) (total : ℕ) : Prop := ∀ i < total, (t.stage i).told?.isSome

inductive TallyStep (total : ℕ) : Tally π → Tally π → Prop where
  | counts {t : Tally π} {i : ℕ} (bound : i < total) (due : t.stage i = .due) :
      TallyStep total t
        ⟨t.counter + 1, Function.update t.stage i (.counted (t.counter + 1)), t.log⟩
  | tells {t : Tally π} {i number : ℕ} (value : π) (counted : t.stage i = .counted number) :
      TallyStep total t ⟨t.counter, Function.update t.stage i (.told number value),
        t.log ++ [(number, value)]⟩

/-- The workers in the order in which they were counted, and those that have told in the
order in which they did. -/
structure Accounts (total : ℕ) (t : Tally π) (order told : List ℕ) : Prop where
  nodup : order.Nodup
  length : order.length = t.counter
  bound : ∀ i ∈ order, i < total
  number : ∀ i n, (t.stage i).number? = some n ↔ ∃ k, n = k + 1 ∧ order[k]? = some i
  told_nodup : told.Nodup
  told_log : told.map (fun i ↦ (t.stage i).told?) = t.log.map some
  mem_told : ∀ i, i ∈ told ↔ (t.stage i).told?.isSome

section Steps

variable {total : ℕ} {t t' : Tally π} {order told : List ℕ}

theorem Accounts.mem_order (h : Accounts total t order told) {i : ℕ} :
    i ∈ order ↔ (t.stage i).number?.isSome := by
  rw [Option.isSome_iff_exists, List.mem_iff_getElem?]
  constructor
  · rintro ⟨k, hk⟩
    exact ⟨k + 1, (h.number i (k + 1)).mpr ⟨k, rfl, hk⟩⟩
  · rintro ⟨n, hn⟩
    obtain ⟨k, _, hk⟩ := (h.number i n).mp hn
    exact ⟨k, hk⟩

theorem Accounts.start : Accounts total (Tally.start : Tally π) [] [] := by
  refine ⟨List.nodup_nil, rfl, by simp, fun i n ↦ ?_, List.nodup_nil, rfl, fun i ↦ ?_⟩
  · refine iff_of_false (fun h ↦ nomatch h) ?_
    rintro ⟨k, _, hk⟩
    exact nomatch hk
  · exact iff_of_false (fun h ↦ nomatch h) fun h ↦ nomatch h

theorem Accounts.counts (h : Accounts total t order told) {i : ℕ} (hi : i < total)
    (hdue : t.stage i = .due) :
    Accounts total
      ⟨t.counter + 1, Function.update t.stage i (.counted (t.counter + 1)), t.log⟩
      (order ++ [i]) told := by
  have hnew : i ∉ order := fun hmem ↦ by simpa [hdue, Stage.number?] using h.mem_order.mp hmem
  have huntold : i ∉ told := fun hmem ↦ by simpa [hdue, Stage.told?] using (h.mem_told i).mp hmem
  constructor
  · exact List.nodup_append.mpr ⟨h.nodup, List.nodup_singleton i, fun a ha b hb ↦ by
      rintro rfl
      exact hnew (List.mem_singleton.mp hb ▸ ha)⟩
  · rw [List.length_append, h.length]
    rfl
  · intro j hj
    rcases List.mem_append.mp hj with hj | hj
    · exact h.bound j hj
    · exact List.mem_singleton.mp hj ▸ hi
  · intro j n
    change (Function.update t.stage i _ j).number? = some n ↔ _
    by_cases hji : j = i
    · subst hji
      rw [Function.update_self]
      constructor
      · intro hn
        refine ⟨t.counter, (Option.some.inj hn).symm, ?_⟩
        rw [← h.length, List.getElem?_concat_length]
      · rintro ⟨k, rfl, hk⟩
        have hlast : k = order.length := by
          by_contra hne
          rcases Nat.lt_or_gt_of_ne hne with hlt | hgt
          · rw [List.getElem?_append_left hlt] at hk
            exact hnew (List.mem_of_getElem? hk)
          · rw [List.getElem?_eq_none (by simp; omega)] at hk
            exact absurd hk (Option.some_ne_none _).symm
        rw [Stage.number?, hlast, h.length]
    · rw [Function.update_of_ne hji, h.number j n]
      refine exists_congr fun k ↦ and_congr_right fun _ ↦ ?_
      rw [List.getElem?_append]
      split_ifs with hk
      · rfl
      · rw [List.getElem?_eq_none (Nat.not_lt.mp hk)]
        apply iff_of_false (Option.some_ne_none j).symm
        intro hlast
        exact hji (List.mem_singleton.mp (List.mem_of_getElem? hlast))
  · exact h.told_nodup
  · refine Eq.trans (List.map_congr_left fun j hj ↦ ?_) h.told_log
    have hji : j ≠ i := fun hji ↦ huntold (hji ▸ hj)
    exact congrArg Stage.told? (Function.update_of_ne hji _ _)
  · intro j
    change j ∈ told ↔ (Function.update t.stage i _ j).told?.isSome
    by_cases hji : j = i
    · subst hji
      rw [Function.update_self]
      exact iff_of_false huntold Bool.false_ne_true
    · rw [Function.update_of_ne hji, h.mem_told j]

theorem Accounts.tells (h : Accounts total t order told) {i number : ℕ} (value : π)
    (hcounted : t.stage i = .counted number) :
    Accounts total
      ⟨t.counter, Function.update t.stage i (.told number value), t.log ++ [(number, value)]⟩
      order (told ++ [i]) := by
  have huntold : i ∉ told := fun hmem ↦ by
    simpa [hcounted, Stage.told?] using (h.mem_told i).mp hmem
  constructor
  · exact h.nodup
  · exact h.length
  · exact h.bound
  · intro j n
    rw [← h.number j n]
    change (Function.update t.stage i _ j).number? = _ ↔ _
    by_cases hji : j = i
    · subst hji
      rw [Function.update_self, hcounted]
      rfl
    · rw [Function.update_of_ne hji]
  · exact List.nodup_append.mpr ⟨h.told_nodup, List.nodup_singleton i, fun a ha b hb ↦ by
      rintro rfl
      exact huntold (List.mem_singleton.mp hb ▸ ha)⟩
  · rw [List.map_append, List.map_append, ← h.told_log]
    refine congrArg₂ (· ++ ·) (List.map_congr_left fun j hj ↦ ?_) ?_
    · have hji : j ≠ i := fun hji ↦ huntold (hji ▸ hj)
      exact congrArg Stage.told? (Function.update_of_ne hji _ _)
    · exact congrArg (fun s : Stage π ↦ [s.told?]) (Function.update_self i _ t.stage)
  · intro j
    rw [List.mem_append, List.mem_singleton]
    change _ ↔ (Function.update t.stage i _ j).told?.isSome
    by_cases hji : j = i
    · subst hji
      rw [Function.update_self]
      exact iff_of_true (.inr rfl) rfl
    · rw [Function.update_of_ne hji, ← h.mem_told j]
      exact or_iff_left hji

theorem TallyStep.accounts (hstep : TallyStep total t t') (h : Accounts total t order told) :
    ∃ order' told', Accounts total t' order' told' := by
  cases hstep with
  | counts bound due => exact ⟨_, _, h.counts bound due⟩
  | tells value counted => exact ⟨_, _, h.tells value counted⟩

/-- A worker tells once. -/
theorem TallyStep.told_kept (hstep : TallyStep total t t') {i : ℕ}
    (h : (t.stage i).told?.isSome) : (t'.stage i).told?.isSome := by
  cases hstep with
  | @counts j bound due =>
      have hij : i ≠ j := by
        rintro rfl
        simp [due, Stage.told?] at h
      change (Function.update t.stage j _ i).told?.isSome
      rwa [Function.update_of_ne hij]
  | @tells j number value counted =>
      change (Function.update t.stage j _ i).told?.isSome
      by_cases hij : i = j
      · subst hij
        rw [Function.update_self]
        rfl
      · rwa [Function.update_of_ne hij]

theorem Tally.AllTold.run (h : t.AllTold total)
    (hrun : Relation.ReflTransGen (TallyStep total) t t') : t'.AllTold total := by
  induction hrun with
  | refl => exact h
  | tail _ hstep ih => exact fun i hi ↦ hstep.told_kept (ih i hi)

theorem accounts_of_reachable (hrun : Relation.ReflTransGen (TallyStep total) .start t) :
    ∃ order told, Accounts total t order told := by
  induction hrun with
  | refl => exact ⟨[], [], .start⟩
  | tail _ hstep ih =>
      obtain ⟨order, told, h⟩ := ih
      exact hstep.accounts h

end Steps

/-! ## What was told -/

section Told

variable {total : ℕ} {t : Tally π} {order told : List ℕ}

theorem Accounts.told_mem_order (h : Accounts total t order told) {i : ℕ} (hi : i ∈ told) :
    i ∈ order := by
  have hsome := (h.mem_told i).mp hi
  rw [h.mem_order]
  cases hstage : t.stage i with
  | due => simp [hstage, Stage.told?] at hsome
  | counted number => rfl
  | told number value => rfl

theorem Accounts.counter_le (h : Accounts total t order told) : t.counter ≤ total := by
  have hsub : order ⊆ List.range total := fun i hi ↦ List.mem_range.mpr (h.bound i hi)
  have hle := (h.nodup.subperm hsub).length_le
  rwa [h.length, List.length_range] at hle

theorem Accounts.log_fst (h : Accounts total t order told) :
    (t.log.map Prod.fst).map some = told.map fun i ↦ (t.stage i).number? := by
  have hfst : (t.log.map some).map (Option.map Prod.fst) = (t.log.map Prod.fst).map some := by
    rw [List.map_map, List.map_map]
    rfl
  rw [← hfst, ← h.told_log, List.map_map]
  apply List.map_congr_left
  intro i hi
  have hsome := (h.mem_told i).mp hi
  cases hstage : t.stage i with
  | due => simp [hstage, Stage.told?] at hsome
  | counted number => simp [hstage, Stage.told?] at hsome
  | told number value => simp [hstage, Stage.told?, Stage.number?]

/-- No number is told twice. -/
theorem Accounts.log_nodup (h : Accounts total t order told) : (t.log.map Prod.fst).Nodup := by
  apply List.Nodup.of_map some
  rw [h.log_fst]
  apply h.told_nodup.map_on
  intro i hi j hj heq
  obtain ⟨n, hn⟩ := Option.isSome_iff_exists.mp (h.mem_order.mp (h.told_mem_order hi))
  obtain ⟨k, hk, hi'⟩ := (h.number i n).mp hn
  obtain ⟨k', hk', hj'⟩ := (h.number j n).mp (heq.symm.trans hn)
  obtain rfl : k = k' := by omega
  exact Option.some.inj (hi'.symm.trans hj')

theorem Accounts.log_bound (h : Accounts total t order told) {n : ℕ}
    (hn : n ∈ t.log.map Prod.fst) : 1 ≤ n ∧ n ≤ t.counter := by
  have hmem : some n ∈ (t.log.map Prod.fst).map some := List.mem_map_of_mem hn
  rw [h.log_fst] at hmem
  obtain ⟨i, _, hi⟩ := List.mem_map.mp hmem
  obtain ⟨k, rfl, hk⟩ := (h.number i n).mp hi
  obtain ⟨hlt, _⟩ := List.getElem?_eq_some_iff.mp hk
  rw [h.length] at hlt
  omega

/-- Once all workers have told, they have told every number, and of each worker once. -/
theorem Accounts.complete (h : Accounts total t order told)
    (hall : t.AllTold total) :
    (t.log.map Prod.fst).Perm (List.range' 1 total) ∧
      (t.log.map some).Perm ((List.range total).map fun i ↦ (t.stage i).told?) := by
  have htold : told.Perm (List.range total) := by
    rw [List.perm_ext_iff_of_nodup h.told_nodup List.nodup_range]
    intro i
    rw [List.mem_range, h.mem_told]
    refine ⟨fun hsome ↦ ?_, hall i⟩
    exact h.bound i (h.told_mem_order ((h.mem_told i).mpr hsome))
  have hlog : (t.log.map some).Perm ((List.range total).map fun i ↦ (t.stage i).told?) := by
    rw [← h.told_log]
    exact htold.map _
  refine ⟨?_, hlog⟩
  have hlength : (t.log.map Prod.fst).length = (List.range' 1 total).length := by
    have hperm := hlog.length_eq
    simpa using hperm
  have hsub : t.log.map Prod.fst ⊆ List.range' 1 total := by
    intro n hn
    have hbound := h.log_bound hn
    have hle := h.counter_le
    rw [List.mem_range'_1]
    omega
  exact (h.log_nodup.subperm hsub).perm_of_length_le hlength.ge

/-- Once all workers have told, what they told of is one value of each. -/
theorem told_perm_of_reachable (hrun : Relation.ReflTransGen (TallyStep total) .start t)
    (hall : t.AllTold total) {values : List π} (hlength : values.length = total)
    (hvalue : ∀ i value, values[i]? = some value →
      (t.stage i).told?.map Prod.snd = some value) :
    (t.log.map Prod.fst).Perm (List.range' 1 total) ∧ (t.log.map Prod.snd).Perm values := by
  obtain ⟨order, told, haccounts⟩ := accounts_of_reachable hrun
  obtain ⟨hnumbers, hlog⟩ := haccounts.complete hall
  refine ⟨hnumbers, ?_⟩
  have hmapped := hlog.map (Option.map Prod.snd)
  have hvalues : ((List.range total).map fun i ↦ (t.stage i).told?).map (Option.map Prod.snd) =
      values.map some := by
    apply List.ext_getElem (by simp [hlength])
    intro i hi hi'
    rw [List.length_map] at hi'
    simpa using hvalue i _ (List.getElem?_eq_getElem hi')
  rw [hvalues] at hmapped
  apply (List.map_perm_map_iff (Option.some_injective π)).mp
  rw [List.map_map] at hmapped ⊢
  exact hmapped

end Told

end StorageReconciler.Tallies
