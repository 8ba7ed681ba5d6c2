import Mathlib.Data.List.Infix
import Mathlib.Logic.Function.Basic
import Mathlib.Logic.Relation

/-!
# Files that grow to their texts

A file is begun under a new name and then written in place, bit by bit; its writer may
stop at any moment.  A reader finds a front part of the text that the file was begun for.
-/

namespace StorageReconciler.GrowingFiles

variable {π χ ω : Type*}

/-- The files, and what each was begun for. -/
structure Folder (π χ ω : Type*) where
  files : π → Option (List χ)
  begun : List (π × ω)

namespace Folder

def empty : Folder π χ ω := ⟨fun _ ↦ none, []⟩

section Steps

variable [DecidableEq π] (text : ω → List χ) (fits : π → ω → Prop)

inductive Step : Folder π χ ω → Folder π χ ω → Prop where
  | create {f : Folder π χ ω} {p : π} {a : ω} (hnew : f.files p = none) (hfits : fits p a) :
      Step f ⟨Function.update f.files p (some []), (p, a) :: f.begun⟩
  | append {f : Folder π χ ω} {p : π} {a : ω} {s more : List χ} (hbegun : (p, a) ∈ f.begun)
      (hfile : f.files p = some s) (hfront : s ++ more <+: text a) :
      Step f ⟨Function.update f.files p (some (s ++ more)), f.begun⟩

end Steps

/-- Every file was begun once, and holds a front part of its text. -/
structure Sound (text : ω → List χ) (fits : π → ω → Prop) (f : Folder π χ ω) : Prop where
  once : ∀ p a b, (p, a) ∈ f.begun → (p, b) ∈ f.begun → a = b
  fits : ∀ p a, (p, a) ∈ f.begun → fits p a
  front : ∀ p a, (p, a) ∈ f.begun → ∃ s, f.files p = some s ∧ s <+: text a
  begun : ∀ p s, f.files p = some s → ∃ a, (p, a) ∈ f.begun

/-- What was begun stays, and no file gets shorter. -/
structure Grows (f f' : Folder π χ ω) : Prop where
  begun : ∀ e ∈ f.begun, e ∈ f'.begun
  files : ∀ p s, f.files p = some s → ∃ s', f'.files p = some s' ∧ s <+: s'

theorem Grows.refl (f : Folder π χ ω) : Grows f f :=
  ⟨fun _ he ↦ he, fun _ s hs ↦ ⟨s, hs, List.prefix_rfl⟩⟩

theorem Grows.trans {f f' f'' : Folder π χ ω} (h : Grows f f') (h' : Grows f' f'') :
    Grows f f'' := by
  refine ⟨fun e he ↦ h'.begun e (h.begun e he), fun p s hs ↦ ?_⟩
  obtain ⟨s', hs', hfront⟩ := h.files p s hs
  obtain ⟨s'', hs'', hfront'⟩ := h'.files p s' hs'
  exact ⟨s'', hs'', hfront.trans hfront'⟩

theorem sound_empty (text : ω → List χ) (fits : π → ω → Prop) :
    Sound text fits (empty : Folder π χ ω) :=
  ⟨fun _ _ _ h ↦ absurd h List.not_mem_nil, fun _ _ h ↦ absurd h List.not_mem_nil,
    fun _ _ h ↦ absurd h List.not_mem_nil, fun _ _ h ↦ absurd h.symm (Option.some_ne_none _)⟩

variable [DecidableEq π] {text : ω → List χ} {fits : π → ω → Prop} {f f' : Folder π χ ω}

theorem Step.grows (hstep : Step text fits f f') : Grows f f' := by
  cases hstep with
  | @create p a hnew hfits =>
      refine ⟨fun e he ↦ List.mem_cons_of_mem _ he, fun q s hs ↦ ⟨s, ?_, List.prefix_rfl⟩⟩
      have hq : q ≠ p := by
        rintro rfl
        exact absurd (hnew.symm.trans hs) (Option.some_ne_none s).symm
      exact (Function.update_of_ne hq _ _).trans hs
  | @append p a s more hbegun hfile hfront =>
      refine ⟨fun e he ↦ he, fun q t ht ↦ ?_⟩
      by_cases hq : q = p
      · subst hq
        obtain rfl := Option.some.inj (hfile.symm.trans ht)
        exact ⟨_, Function.update_self .., List.prefix_append _ _⟩
      · exact ⟨t, (Function.update_of_ne hq _ _).trans ht, List.prefix_rfl⟩

theorem Step.sound (hstep : Step text fits f f') (h : Sound text fits f) : Sound text fits f' := by
  cases hstep with
  | @create p a hnew hfits =>
      have hother : ∀ b, (p, b) ∉ f.begun := by
        intro b hb
        obtain ⟨s, hs, _⟩ := h.front p b hb
        exact absurd (hnew.symm.trans hs) (Option.some_ne_none s).symm
      refine ⟨fun q b c hb hc ↦ ?_, fun q b hb ↦ ?_, fun q b hb ↦ ?_, fun q s hs ↦ ?_⟩
      · rcases List.mem_cons.mp hb with heq | hb <;> rcases List.mem_cons.mp hc with heq' | hc
        · exact (Prod.mk.inj heq).2.trans (Prod.mk.inj heq').2.symm
        · exact absurd ((Prod.mk.inj heq).1 ▸ hc) (hother c)
        · exact absurd ((Prod.mk.inj heq').1 ▸ hb) (hother b)
        · exact h.once q b c hb hc
      · rcases List.mem_cons.mp hb with heq | hb
        · obtain ⟨rfl, rfl⟩ := Prod.mk.inj heq
          exact hfits
        · exact h.fits q b hb
      · rcases List.mem_cons.mp hb with heq | hb
        · obtain ⟨rfl, rfl⟩ := Prod.mk.inj heq
          exact ⟨[], Function.update_self .., List.nil_prefix⟩
        · have hq : q ≠ p := fun heq ↦ hother b (heq ▸ hb)
          obtain ⟨s, hs, hfront⟩ := h.front q b hb
          exact ⟨s, (Function.update_of_ne hq _ _).trans hs, hfront⟩
      · by_cases hq : q = p
        · exact ⟨a, hq ▸ List.mem_cons_self⟩
        · obtain ⟨b, hb⟩ := h.begun q s ((Function.update_of_ne hq _ _).symm.trans hs)
          exact ⟨b, List.mem_cons_of_mem _ hb⟩
  | @append p a s more hbegun hfile hfront =>
      refine ⟨h.once, h.fits, fun q b hb ↦ ?_, fun q t ht ↦ ?_⟩
      · by_cases hq : q = p
        · subst hq
          obtain rfl := h.once q a b hbegun hb
          exact ⟨_, Function.update_self .., hfront⟩
        · obtain ⟨t, ht, hfront'⟩ := h.front q b hb
          exact ⟨t, (Function.update_of_ne hq _ _).trans ht, hfront'⟩
      · by_cases hq : q = p
        · exact ⟨a, hq ▸ hbegun⟩
        · exact h.begun q t ((Function.update_of_ne hq _ _).symm.trans ht)

theorem sound_of_run (hrun : Relation.ReflTransGen (Step text fits) f f')
    (h : Sound text fits f) : Sound text fits f' := by
  induction hrun with
  | refl => exact h
  | tail _ hstep ih => exact hstep.sound ih

theorem grows_of_run (hrun : Relation.ReflTransGen (Step text fits) f f') : Grows f f' := by
  induction hrun with
  | refl => exact .refl f
  | tail _ hstep ih => exact ih.trans hstep.grows

omit [DecidableEq π] in
/-- A file that is there is later a front part of the same text. -/
theorem Sound.front_of_grows {s : List χ} {p : π} (h : Sound text fits f)
    (h' : Sound text fits f') (hgrows : Grows f f') (hs : f.files p = some s) :
    ∃ a s', (p, a) ∈ f.begun ∧ f'.files p = some s' ∧ s' <+: text a := by
  obtain ⟨a, ha⟩ := h.begun p s hs
  obtain ⟨s', hs', hfront⟩ := h'.front p a (hgrows.begun _ ha)
  exact ⟨a, s', ha, hs', hfront⟩

omit [DecidableEq π] in
/-- A file that is written whole stays as it is. -/
theorem Sound.whole_of_grows {p : π} {a : ω} (h' : Sound text fits f') (hgrows : Grows f f')
    (ha : (p, a) ∈ f.begun) (hwhole : f.files p = some (text a)) :
    f'.files p = some (text a) := by
  obtain ⟨s, hs, hfront⟩ := hgrows.files p _ hwhole
  obtain ⟨s', hs', hfront'⟩ := h'.front p a (hgrows.begun _ ha)
  obtain rfl := Option.some.inj (hs.symm.trans hs')
  rw [hs, hfront.eq_of_length_le hfront'.length_le]

end Folder

end StorageReconciler.GrowingFiles
