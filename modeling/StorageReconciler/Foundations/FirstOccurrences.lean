import Mathlib.Data.List.Nodup
import Mathlib.Tactic.Common

/-!
# First occurrences

The entries of a list that are the first with their key, past keys that were seen
before.  A part of the list can be taken out without a trace exactly when what it
adds is what the part behind it begins with.
-/

namespace StorageReconciler.FirstOccurrences

variable {α ε ε' : Type*} [DecidableEq α] {key : ε → α}

/-- The entries whose keys are not seen yet, the first for each key. -/
def firsts (key : ε → α) (seen : List α) : List ε → List ε
  | [] => []
  | e :: l => if key e ∈ seen then firsts key seen l else e :: firsts key (key e :: seen) l

theorem firsts_congr {seen seen' : List α} (h : ∀ k, k ∈ seen ↔ k ∈ seen') (l : List ε) :
    firsts key seen l = firsts key seen' l := by
  induction l generalizing seen seen' with
  | nil => rfl
  | cons e l ih =>
      have hcons : ∀ k, k ∈ key e :: seen ↔ k ∈ key e :: seen' := by
        intro k
        rw [List.mem_cons, List.mem_cons, h k]
      rw [firsts, firsts, ih h, ih hcons]
      simp only [h (key e)]

theorem mem_keys_firsts {seen : List α} {l : List ε} {k : α} :
    k ∈ (firsts key seen l).map key ↔ k ∈ l.map key ∧ k ∉ seen := by
  induction l generalizing seen with
  | nil => simp [firsts]
  | cons e l ih =>
      rw [firsts, List.map_cons, List.mem_cons]
      split_ifs with hseen
      · rw [ih]
        constructor
        · exact fun ⟨hk, hnew⟩ ↦ ⟨.inr hk, hnew⟩
        · rintro ⟨rfl | hk, hnew⟩
          · exact absurd hseen hnew
          · exact ⟨hk, hnew⟩
      · rw [List.map_cons, List.mem_cons, ih, List.mem_cons]
        constructor
        · rintro (rfl | ⟨hk, hnew⟩)
          · exact ⟨.inl rfl, hseen⟩
          · exact ⟨.inr hk, fun h ↦ hnew (.inr h)⟩
        · rintro ⟨hk, hnew⟩
          by_cases heq : k = key e
          · exact .inl heq
          · exact .inr ⟨hk.resolve_left heq, fun h ↦ h.elim heq hnew⟩

theorem mem_firsts_id {seen l : List α} {k : α} : k ∈ firsts id seen l ↔ k ∈ l ∧ k ∉ seen := by
  have hkeys : k ∈ (firsts id seen l).map id ↔ k ∈ l.map id ∧ k ∉ seen := mem_keys_firsts
  rwa [List.map_id, List.map_id] at hkeys

theorem nodup_keys_firsts (seen : List α) (l : List ε) :
    ((firsts key seen l).map key).Nodup := by
  induction l generalizing seen with
  | nil => exact List.nodup_nil
  | cons e l ih =>
      rw [firsts]
      split_ifs
      · exact ih seen
      · rw [List.map_cons, List.nodup_cons]
        exact ⟨fun h ↦ (mem_keys_firsts.mp h).2 List.mem_cons_self, ih _⟩

theorem firsts_append_seen (more seen : List α) (l : List ε) :
    firsts key (more ++ seen) l = (firsts key seen l).filter fun e ↦ decide (key e ∉ more) := by
  induction l generalizing seen with
  | nil => rfl
  | cons e l ih =>
      rw [firsts, firsts]
      by_cases hseen : key e ∈ seen
      · rw [if_pos (List.mem_append_right _ hseen), if_pos hseen, ih]
      · rw [if_neg hseen]
        by_cases hmore : key e ∈ more
        · have hdrop : ∀ k, k ∈ more ++ seen ↔ k ∈ more ++ key e :: seen := by
            intro k
            simp only [List.mem_append, List.mem_cons]
            constructor
            · exact Or.imp_right .inr
            · rintro (hk | rfl | hk)
              · exact .inl hk
              · exact .inl hmore
              · exact .inr hk
          rw [if_pos (List.mem_append_left _ hmore), List.filter_cons_of_neg (by simpa using hmore),
            firsts_congr hdrop, ih]
        · have hswap : ∀ k, k ∈ key e :: (more ++ seen) ↔ k ∈ more ++ key e :: seen := fun k ↦
            List.perm_middle.symm.mem_iff
          have hnew : key e ∉ more ++ seen := fun h ↦ (List.mem_append.mp h).elim hmore hseen
          rw [if_neg hnew, List.filter_cons_of_pos (by simpa using hmore), firsts_congr hswap, ih]

theorem firsts_append (seen : List α) (l l' : List ε) :
    firsts key seen (l ++ l') = firsts key seen l ++ firsts key (l.map key ++ seen) l' := by
  induction l generalizing seen with
  | nil => rfl
  | cons e l ih =>
      rw [List.cons_append, firsts, firsts, ih, ih, List.map_cons]
      split_ifs with hseen
      · refine congrArg _ (firsts_congr (fun k ↦ ?_) l')
        rw [List.cons_append, List.mem_cons]
        constructor
        · exact .inr
        · rintro (rfl | hk)
          · exact List.mem_append_right _ hseen
          · exact hk
      · have hswap : firsts key (l.map key ++ key e :: seen) l' =
            firsts key (key e :: l.map key ++ seen) l' :=
          firsts_congr (fun k ↦ List.perm_middle.mem_iff) l'
        rw [hswap]
        rfl

theorem firsts_filter (p : α → Bool) (seen : List α) (l : List ε) :
    (firsts key seen l).filter (fun e ↦ p (key e)) =
      firsts key seen (l.filter fun e ↦ p (key e)) := by
  induction l generalizing seen with
  | nil => rfl
  | cons e l ih =>
      rw [firsts]
      cases hp : p (key e) with
      | false =>
          rw [List.filter_cons_of_neg (by simp [hp])]
          split_ifs with hseen
          · exact ih seen
          · have hmore : firsts key (key e :: seen) l =
                (firsts key seen l).filter fun e' ↦ decide (key e' ∉ [key e]) :=
              firsts_append_seen [key e] seen l
            rw [List.filter_cons_of_neg (by simp [hp]), hmore, List.filter_filter, ← ih seen]
            apply List.filter_congr
            intro e' _
            by_cases heq : key e' = key e
            · simp [heq, hp]
            · simp [heq]
      | true =>
          rw [List.filter_cons_of_pos (by simp [hp]), firsts]
          split_ifs with hseen
          · exact ih seen
          · rw [List.filter_cons_of_pos (by simp [hp]), ih]

theorem firsts_append_eq_iff {seen : List α} {l l' : List ε} :
    firsts key seen (l ++ l') = firsts key seen l' ↔ firsts key seen l <+: firsts key seen l' := by
  rw [firsts_append, firsts_append_seen]
  constructor
  · intro h
    exact ⟨_, h⟩
  · rintro ⟨rest, hrest⟩
    have hnodup : ((firsts key seen l').map key).Nodup := nodup_keys_firsts seen l'
    rw [← hrest, List.map_append, List.nodup_append'] at hnodup
    have hnew : ∀ e ∈ firsts key seen l', key e ∉ seen := fun e he ↦
      (mem_keys_firsts.mp (List.mem_map_of_mem he)).2
    rw [← hrest] at hnew ⊢
    have hfront : (firsts key seen l).filter (fun e ↦ decide (key e ∉ l.map key)) = [] := by
      rw [List.filter_eq_nil_iff]
      intro e he
      simpa using (mem_keys_firsts.mp (List.mem_map_of_mem he)).1
    have hback : rest.filter (fun e ↦ decide (key e ∉ l.map key)) = rest := by
      rw [List.filter_eq_self]
      intro e he
      rw [decide_eq_true_eq]
      intro hmem
      have hseen := hnew e (List.mem_append_right _ he)
      exact hnodup.2.2 (mem_keys_firsts.mpr ⟨hmem, hseen⟩) (List.mem_map_of_mem he)
    rw [List.filter_append, hfront, hback, List.nil_append]

theorem map_firsts (f : ε' → ε) (seen : List α) (l : List ε') :
    (firsts (key ∘ f) seen l).map f = firsts key seen (l.map f) := by
  induction l generalizing seen with
  | nil => rfl
  | cons e l ih =>
      rw [List.map_cons, firsts, firsts]
      split_ifs with h h' h'
      · exact ih seen
      · exact absurd h h'
      · exact absurd h' h
      · rw [List.map_cons, ih]
        rfl

variable (key) in
/-- What the item adds to the part before it is what the part after it begins with. -/
def Anticipates (before item after : List ε) : Prop :=
  firsts key (before.map key) item <+: firsts key (before.map key) after

theorem firsts_eq_iff_anticipates {before item after : List ε} :
    firsts key [] (before ++ item ++ after) = firsts key [] (before ++ after) ↔
      Anticipates key before item after := by
  calc
    firsts key [] (before ++ item ++ after) = firsts key [] (before ++ after) ↔
        firsts key (before.map key ++ []) (item ++ after) =
          firsts key (before.map key ++ []) after := by
      rw [List.append_assoc, firsts_append [] before, firsts_append [] before,
        List.append_cancel_left_eq]
    _ ↔ Anticipates key before item after := by
      rw [firsts_append_eq_iff, List.append_nil]
      rfl

end StorageReconciler.FirstOccurrences
