import Mathlib.Data.List.Induction
import Mathlib.Order.Nat
import Mathlib.Tactic.Common

/-!
# Latches along a list

A latch is set by some elements of a list and cleared by others, and what it has
passed over is dropped while it is set.  A latch that fewer elements clear drops more.
-/

namespace StorageReconciler.Latches

variable {α β : Type*} (sets clears : α → Bool)

/-- The latch behind an element. -/
def latch (on : Bool) (a : α) : Bool := sets a || on && !clears a

/-- The latch behind a list. -/
def latched (on : Bool) (l : List α) : Bool := l.foldl (latch sets clears) on

/-- What is put out along the list, nothing being put out while the latch is set. -/
def emitted (out : α → List β) : Bool → List α → List β
  | _, [] => []
  | on, a :: l =>
      (if latch sets clears on a then [] else out a) ++ emitted out (latch sets clears on a) l

/-- The latch is set when something has set it and nothing has cleared it since. -/
theorem latched_eq_true_iff {on : Bool} {l : List α} :
    latched sets clears on l = true ↔
      (on = true ∧ ∀ a ∈ l, clears a = false) ∨
        ∃ before a after, l = before ++ a :: after ∧ sets a = true ∧
          ∀ b ∈ after, clears b = false := by
  induction l using List.reverseRecOn with
  | nil => simp [latched]
  | append_singleton l a ih =>
      have hlast : latched sets clears on (l ++ [a]) =
          latch sets clears (latched sets clears on l) a := by
        rw [latched, List.foldl_append]
        rfl
      rw [hlast, latch, Bool.or_eq_true, Bool.and_eq_true, ih, Bool.not_eq_true']
      constructor
      · rintro (hsets | ⟨⟨hon, hclear⟩ | ⟨before, b, after, rfl, hsets, hclear⟩, hkeeps⟩)
        · exact .inr ⟨l, a, [], rfl, hsets, fun b hb ↦ absurd hb List.not_mem_nil⟩
        · exact .inl ⟨hon,
            List.forall_mem_append.mpr ⟨hclear, List.forall_mem_singleton.mpr hkeeps⟩⟩
        · exact .inr ⟨before, b, after ++ [a], by simp, hsets,
            List.forall_mem_append.mpr ⟨hclear, List.forall_mem_singleton.mpr hkeeps⟩⟩
      · rintro (⟨hon, hclear⟩ | ⟨before, b, after, hl, hsets, hclear⟩)
        · obtain ⟨hbefore, hlast⟩ := List.forall_mem_append.mp hclear
          exact .inr ⟨.inl ⟨hon, hbefore⟩, hlast a List.mem_cons_self⟩
        · rcases List.eq_nil_or_concat after with rfl | ⟨after, c, rfl⟩
          · obtain ⟨rfl, hb⟩ := List.append_inj' hl rfl
            exact .inl ((List.cons.inj hb).1 ▸ hsets)
          · rw [List.concat_eq_append] at hl hclear
            obtain ⟨hafter, hlast⟩ := List.forall_mem_append.mp hclear
            rw [← List.cons_append, ← List.append_assoc] at hl
            obtain ⟨rfl, hc⟩ := List.append_inj' hl rfl
            obtain rfl : a = c := (List.cons.inj hc).1
            exact .inr ⟨.inr ⟨before, b, after, rfl, hsets, hafter⟩, hlast a List.mem_cons_self⟩

theorem exists_split_cons {P : List α → α → Prop} {a : α} {l : List α} :
    (∃ before b after, a :: l = before ++ b :: after ∧ P before b) ↔
      P [] a ∨ ∃ before b after, l = before ++ b :: after ∧ P (a :: before) b := by
  constructor
  · rintro ⟨before, b, after, hl, hP⟩
    cases before with
    | nil =>
        obtain ⟨rfl, rfl⟩ := List.cons.inj hl
        exact .inl hP
    | cons c before =>
        obtain ⟨rfl, rfl⟩ := List.cons.inj hl
        exact .inr ⟨before, b, after, rfl, hP⟩
  · rintro (hP | ⟨before, b, after, rfl, hP⟩)
    · exact ⟨[], a, l, rfl, hP⟩
    · exact ⟨a :: before, b, after, rfl, hP⟩

section Compare

variable {clears' : α → Bool}

theorem latch_le (hclears : ∀ a, clears a = true → clears' a = true) {on on' : Bool}
    (hon : on' = true → on = true) (a : α) (h : latch sets clears' on' a = true) :
    latch sets clears on a = true := by
  rw [latch, Bool.or_eq_true, Bool.and_eq_true, Bool.not_eq_true'] at h ⊢
  refine h.imp_right fun ⟨hset, hkeeps⟩ ↦ ⟨hon hset, ?_⟩
  rw [← Bool.not_eq_true] at hkeeps ⊢
  exact fun hclear ↦ hkeeps (hclears a hclear)

theorem length_emitted_le (out : α → List β) (hclears : ∀ a, clears a = true → clears' a = true)
    {on on' : Bool} (hon : on' = true → on = true) (l : List α) :
    (emitted sets clears out on l).length ≤ (emitted sets clears' out on' l).length := by
  induction l generalizing on on' with
  | nil => exact Nat.le_refl 0
  | cons a l ih =>
      have hnext := latch_le sets clears hclears hon a
      rw [emitted, emitted, List.length_append, List.length_append]
      refine Nat.add_le_add ?_ (ih hnext)
      by_cases hset : latch sets clears' on' a = true
      · rw [if_pos hset, if_pos (hnext hset)]
      · rw [if_neg hset]
        split_ifs
        · exact Nat.zero_le _
        · exact Nat.le_refl _

/-- Two latches put out the same exactly when the one is never set before something that
clears only the other. -/
theorem emitted_eq_iff {out : α → List β} (hclears : ∀ a, clears a = true → clears' a = true)
    (hout : ∀ a, sets a = false → clears a = false → clears' a = true → out a ≠ [])
    {on : Bool} {l : List α} :
    emitted sets clears out on l = emitted sets clears' out on l ↔
      ¬∃ before a after, l = before ++ a :: after ∧ latched sets clears on before = true ∧
        sets a = false ∧ clears a = false ∧ clears' a = true := by
  induction l generalizing on with
  | nil => simp [emitted]
  | cons a l ih =>
      rw [exists_split_cons, emitted, emitted]
      by_cases hhere : on = true ∧ sets a = false ∧ clears a = false ∧ clears' a = true
      · obtain ⟨hon, hsets, hkeeps, hclear⟩ := hhere
        have hset : latch sets clears on a = true := by simp [latch, hon, hkeeps]
        have hunset : latch sets clears' on a = false := by simp [latch, hsets, hclear]
        rw [hset, hunset, if_pos rfl, if_neg Bool.false_ne_true, List.nil_append]
        have hpos := List.length_pos_iff.mpr (hout a hsets hkeeps hclear)
        have hle : (emitted sets clears out true l).length ≤
            (emitted sets clears' out false l).length :=
          length_emitted_le sets clears out hclears (fun _ ↦ rfl) l
        refine iff_of_false (fun h ↦ ?_) (not_not_intro (.inl ⟨hon, hsets, hkeeps, hclear⟩))
        have hlength := congrArg List.length h
        rw [List.length_append] at hlength
        omega
      · have hsame : latch sets clears' on a = latch sets clears on a := by
          rw [latch, latch]
          by_cases hclear : clears a = true
          · rw [hclear, hclears a hclear]
          · rw [Bool.not_eq_true] at hclear
            by_cases hon : on = true ∧ sets a = false
            · have hclear' : clears' a = false := by
                rw [← Bool.not_eq_true]
                exact fun h ↦ hhere ⟨hon.1, hon.2, hclear, h⟩
              rw [hclear, hclear']
            · cases on with
              | false => rfl
              | true =>
                  have hsets : sets a = true := by simpa using hon
                  rw [hsets, Bool.true_or, Bool.true_or]
        rw [hsame, List.append_cancel_left_eq, ih]
        exact not_congr (or_iff_right hhere).symm

end Compare

end StorageReconciler.Latches
