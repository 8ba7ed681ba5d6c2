import StorageReconciler.Foundations.Strings
import Mathlib.Data.List.Forall2

/-!
# Literals of a pattern, letter case ignored

A letter matches itself in either case, and four characters outside ASCII that
fold to a letter match it as well.
-/

namespace StorageReconciler.Patterns

open Strings

/-- The characters outside ASCII that match a letter. -/
def caseFolds : List (Char × ℕ) := [('i', 0x130), ('i', 0x131), ('k', 0x212A), ('s', 0x17F)]

/-- A lower-case literal of the pattern against a character. -/
def reEq (p c : Char) : Bool := c.toLower == p || caseFolds.contains (p, c.toNat)

/-- A literal at the head of the text, and what follows it. -/
def matchLiteral : Str → Str → Option Str
  | [], text => some text
  | _ :: _, [] => none
  | p :: literal, c :: text => if reEq p c then matchLiteral literal text else none

/-- The literal occurs somewhere in the text. -/
def searchLiteral (literal text : Str) : Bool :=
  text.tails.any fun t ↦ (matchLiteral literal t).isSome

theorem reEq_cases {p c : Char} (h : reEq p c = true) :
    c.toLower = p ∨ 128 ≤ c.toNat ∧ (p, c.toNat) ∈ caseFolds := by
  simp only [reEq, Bool.or_eq_true, beq_iff_eq, List.contains_eq_mem, decide_eq_true_eq] at h
  refine h.imp_right fun hmem ↦ ⟨?_, hmem⟩
  have hall : ∀ e ∈ caseFolds, 128 ≤ e.2 := by decide
  exact hall _ hmem

theorem matchLiteral_eq_some {literal text rest : Str}
    (h : matchLiteral literal text = some rest) :
    ∃ s, text = s ++ rest ∧ List.Forall₂ (fun p c ↦ reEq p c = true) literal s := by
  induction literal generalizing text with
  | nil =>
      obtain rfl : text = rest := by simpa [matchLiteral] using h
      exact ⟨[], rfl, .nil⟩
  | cons p literal ih =>
      cases text with
      | nil => simp [matchLiteral] at h
      | cons c text =>
          by_cases hpc : reEq p c = true
          · simp only [matchLiteral, hpc, if_true] at h
            obtain ⟨s, rfl, hs⟩ := ih h
            exact ⟨c :: s, rfl, .cons hpc hs⟩
          · simp [matchLiteral, hpc] at h

theorem matchLiteral_append_left {l s rest : Str} (l' : Str)
    (h : List.Forall₂ (fun p c ↦ reEq p c = true) l s) :
    matchLiteral (l ++ l') (s ++ rest) = matchLiteral l' rest := by
  induction h with
  | nil => rfl
  | cons hpc _ ih => simp [matchLiteral, hpc, ih]

theorem forall₂_reEq_map_toLower (s : Str) :
    List.Forall₂ (fun p c ↦ reEq p c = true) (s.map Char.toLower) s := by
  induction s with
  | nil => exact .nil
  | cons c s ih => exact .cons (by simp [reEq]) ih

theorem matchLiteral_cons_none {p c : Char} (h : reEq p c = false) (literal s : Str) :
    matchLiteral (p :: literal) (c :: s) = none := by
  simp [matchLiteral, h]

theorem toLower_of_reEq {p c : Char} (hc : isAscii c = true) (h : reEq p c = true) :
    c.toLower = p := by
  rcases reEq_cases h with h | ⟨hge, _⟩
  · exact h
  · simp only [isAscii, decide_eq_true_eq] at hc
    omega

theorem map_toLower_of_forall₂ {l s : Str} (hs : ∀ c ∈ s, isAscii c = true)
    (h : List.Forall₂ (fun p c ↦ reEq p c = true) l s) : s.map Char.toLower = l := by
  induction h with
  | nil => rfl
  | cons hpc _ ih =>
      rw [List.map_cons, toLower_of_reEq (hs _ (by simp)) hpc,
        ih fun c hc ↦ hs c (List.mem_cons_of_mem _ hc)]

end StorageReconciler.Patterns
