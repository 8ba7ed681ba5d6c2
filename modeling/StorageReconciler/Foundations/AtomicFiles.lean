import Mathlib.Data.List.Nodup
import Mathlib.Logic.Function.Basic
import Mathlib.Tactic.Common

/-!
# Files that are replaced at once

A text reaches its file by way of a temporary file of its own, which is written bit
by bit and then renamed.  Writes run side by side, any of them may be given up, and
files may be removed at any time.

To whoever opens a file that is not temporary, every write happens at one moment or
not at all, and the moments are those at which the temporary files are renamed.
-/

namespace StorageReconciler.AtomicFiles

variable {ω π χ : Type*}

/-- A text for a file, by way of a temporary one. -/
structure Write (ω π χ : Type*) where
  /-- What the text stands for. -/
  value : ω
  target : π
  temp : π
  text : List χ
  /-- Nothing goes wrong while the text is made. -/
  ends : Bool

/-- The files, and the writes with how much of each text is in its temporary file. -/
structure Disk (ω π χ : Type*) where
  files : π → Option (List χ)
  active : List (Write ω π χ × ℕ)

/-- What is noticed of the files, temporary ones apart. -/
inductive Event (ω π χ : Type*) where
  | put (w : Write ω π χ)
  | remove (p : π)

/-- Only a write that has been begun and whose text has ended is put in place. -/
def Event.IsOf (writes : Write ω π χ → Prop) : Event ω π χ → Prop
  | .put w => writes w ∧ w.ends = true
  | .remove _ => True

section Steps

variable [DecidableEq π] (writes : Write ω π χ → Prop)

def Event.apply (files : π → Option (List χ)) : Event ω π χ → π → Option (List χ)
  | .put w => Function.update files w.target (some w.text)
  | .remove p => Function.update files p none

/-- The files when each of these happens at one moment. -/
def filesAfter (files : π → Option (List χ)) (events : List (Event ω π χ)) :
    π → Option (List χ) :=
  events.foldl Event.apply files

/-- A file is only appended to while it is there. -/
def appendTo (p : π) (text : List χ) (files : π → Option (List χ)) : π → Option (List χ) :=
  fun q ↦ if q = p ∧ (files q).isSome then some text else files q

/-- Opening truncates the file, and renaming moves whatever the file then holds. -/
inductive Disk.Step : Disk ω π χ → List (Event ω π χ) → Disk ω π χ → Prop where
  | create {s : Disk ω π χ} {w : Write ω π χ} (hw : writes w) (hfile : s.files w.temp = none)
      (hactive : ∀ a ∈ s.active, a.1.temp ≠ w.temp) :
      Step s [] ⟨Function.update s.files w.temp (some []), (w, 0) :: s.active⟩
  | append {files : π → Option (List χ)} {w : Write ω π χ} {n m : ℕ}
      {before after : List (Write ω π χ × ℕ)} (hn : n ≤ m) (hm : m ≤ w.text.length) :
      Step ⟨files, before ++ (w, n) :: after⟩ []
        ⟨appendTo w.temp (w.text.take m) files, before ++ (w, m) :: after⟩
  | rename {files : π → Option (List χ)} {w : Write ω π χ} {text : List χ}
      {before after : List (Write ω π χ × ℕ)} (hends : w.ends = true)
      (hfile : files w.temp = some text) :
      Step ⟨files, before ++ (w, w.text.length) :: after⟩ [.put w]
        ⟨Function.update (Function.update files w.target (some text)) w.temp none,
          before ++ after⟩
  | giveUp {files : π → Option (List χ)} {a : Write ω π χ × ℕ}
      {before after : List (Write ω π χ × ℕ)} :
      Step ⟨files, before ++ a :: after⟩ [] ⟨files, before ++ after⟩
  | remove {s : Disk ω π χ} (p : π) :
      Step s [.remove p] ⟨Function.update s.files p none, s.active⟩
  | crash {s : Disk ω π χ} : Step s [] ⟨s.files, []⟩

/-- Steps one after another, with all that is noticed of them. -/
inductive Disk.Run : Disk ω π χ → List (Event ω π χ) → Disk ω π χ → Prop where
  | refl (s : Disk ω π χ) : Run s [] s
  | tail {s s' s'' : Disk ω π χ} {events next : List (Event ω π χ)} (hrun : Run s events s')
      (hstep : Disk.Step writes s' next s'') : Run s (events ++ next) s''

def Disk.start (files : π → Option (List χ)) : Disk ω π χ := ⟨files, []⟩

end Steps

/-! ## Temporary files -/

variable (writes : Write ω π χ → Prop) (isTemp : π → Prop)

/-- Where a write is: its own part of the text is in the temporary file, unless that
has been removed. -/
structure IsUnderWay (files : π → Option (List χ)) (a : Write ω π χ × ℕ) : Prop where
  begun : writes a.1
  file : files a.1.temp = none ∨ files a.1.temp = some (a.1.text.take a.2)

structure Disk.Sound (s : Disk ω π χ) : Prop where
  apart : s.active.Pairwise fun a b ↦ a.1.temp ≠ b.1.temp
  underWay : ∀ a ∈ s.active, IsUnderWay writes s.files a

/-- The files are these, temporary ones apart. -/
def Disk.Shows (s : Disk ω π χ) (files : π → Option (List χ)) : Prop :=
  ∀ p, ¬isTemp p → s.files p = files p

variable {writes isTemp} {files : π → Option (List χ)} {a : Write ω π χ × ℕ}

theorem IsUnderWay.congr {files' : π → Option (List χ)}
    (h : files' a.1.temp = files a.1.temp) (ha : IsUnderWay writes files a) :
    IsUnderWay writes files' a :=
  ⟨ha.begun, by rw [h]; exact ha.file⟩

theorem IsUnderWay.removed {files' : π → Option (List χ)}
    (h : files' a.1.temp = none) (ha : IsUnderWay writes files a) :
    IsUnderWay writes files' a :=
  ⟨ha.begun, .inl h⟩

theorem Disk.sound_start (files : π → Option (List χ)) :
    (Disk.start files).Sound writes :=
  ⟨.nil, fun _ ha ↦ absurd ha List.not_mem_nil⟩

theorem Disk.shows_start (files : π → Option (List χ)) :
    (Disk.start files : Disk ω π χ).Shows isTemp files :=
  fun _ _ ↦ rfl

/-- The temporary file of one write belongs to no other one. -/
theorem Disk.Sound.temp_ne {before after : List (Write ω π χ × ℕ)}
    (h : (Disk.mk files (before ++ a :: after)).Sound writes) {b : Write ω π χ × ℕ}
    (hb : b ∈ before ++ after) : b.1.temp ≠ a.1.temp := by
  have hapart := h.apart
  rw [List.pairwise_append, List.pairwise_cons] at hapart
  obtain ⟨_, ⟨hafter, _⟩, hcross⟩ := hapart
  rcases List.mem_append.mp hb with hb | hb
  · exact hcross b hb a List.mem_cons_self
  · exact (hafter b hb).symm

theorem Disk.Sound.drop {before after : List (Write ω π χ × ℕ)}
    (h : (Disk.mk files (before ++ a :: after)).Sound writes) :
    (Disk.mk files (before ++ after)).Sound writes := by
  have hsub : (before ++ after).Sublist (before ++ a :: after) := by
    apply List.Sublist.append_left
    exact List.sublist_cons_self a after
  exact ⟨h.apart.sublist hsub, fun b hb ↦ h.underWay b (hsub.subset hb)⟩

theorem appendTo_of_ne [DecidableEq π] {p q : π} {text : List χ} (h : q ≠ p) :
    appendTo p text files q = files q := by
  rw [appendTo, if_neg fun hq ↦ h hq.1]

theorem appendTo_self [DecidableEq π] {p : π} {text : List χ} :
    appendTo p text files p = none ∨ appendTo p text files p = some text := by
  rw [appendTo]
  cases hfile : files p with
  | none => exact .inl (by simp)
  | some t => exact .inr (by simp)

theorem update_congr [DecidableEq π] {files' : π → Option (List χ)} {p q : π}
    {text : Option (List χ)} (h : files q = files' q) :
    Function.update files p text q = Function.update files' p text q := by
  by_cases hq : q = p
  · subst hq
    rw [Function.update_self, Function.update_self]
  · rw [Function.update_of_ne hq, Function.update_of_ne hq, h]

/-! ## Refinement -/

section Refinement

variable [DecidableEq π] {s s' : Disk ω π χ} {events later : List (Event ω π χ)}

theorem Disk.Step.sound (hwrites : ∀ w, writes w → isTemp w.temp ∧ ¬isTemp w.target)
    (hstep : Disk.Step writes s events s') (h : s.Sound writes) : s'.Sound writes := by
  cases hstep with
  | @create _ w hw hfile hactive =>
      refine ⟨List.pairwise_cons.mpr ⟨fun a ha ↦ (hactive a ha).symm, h.apart⟩, fun a ha ↦ ?_⟩
      rcases List.mem_cons.mp ha with rfl | ha
      · exact ⟨hw, .inr (Function.update_self ..)⟩
      · apply (h.underWay a ha).congr
        exact Function.update_of_ne (hactive a ha) _ _
  | @append files w n m before after hn hm =>
      have hw := h.underWay (w, n) (by simp)
      have hdrop := h.drop
      refine ⟨?_, fun a ha ↦ ?_⟩
      · have hmap := h.apart
        rw [List.pairwise_append, List.pairwise_cons] at hmap ⊢
        obtain ⟨hbefore, hafter, hcross⟩ := hmap
        refine ⟨hbefore, hafter, fun a ha b hb ↦ ?_⟩
        rcases List.mem_cons.mp hb with rfl | hb
        · exact hcross a ha (w, n) List.mem_cons_self
        · exact hcross a ha b (List.mem_cons_of_mem _ hb)
      · rcases List.mem_append.mp ha with hb | hb
        · have hmem := List.mem_append_left after hb
          exact (hdrop.underWay a hmem).congr (appendTo_of_ne (h.temp_ne hmem))
        · rcases List.mem_cons.mp hb with rfl | hb
          · exact ⟨hw.begun, appendTo_self⟩
          · have hmem := List.mem_append_right before hb
            exact (hdrop.underWay a hmem).congr (appendTo_of_ne (h.temp_ne hmem))
  | @rename files w text before after hends hfile =>
      have hw := h.underWay (w, w.text.length) (by simp)
      refine ⟨h.drop.apart, fun a ha ↦ ?_⟩
      have ha' := h.drop.underWay a ha
      apply ha'.congr
      have htarget : a.1.temp ≠ w.target := fun heq ↦
        (hwrites w hw.begun).2 (heq ▸ (hwrites a.1 ha'.begun).1)
      exact (Function.update_of_ne (h.temp_ne ha) _ _).trans (Function.update_of_ne htarget _ _)
  | giveUp => exact h.drop
  | remove p =>
      refine ⟨h.apart, fun a ha ↦ ?_⟩
      by_cases hp : a.1.temp = p
      · apply (h.underWay a ha).removed
        rw [hp]
        exact Function.update_self ..
      · apply (h.underWay a ha).congr
        exact Function.update_of_ne hp _ _
  | crash => exact ⟨.nil, fun _ ha ↦ absurd ha List.not_mem_nil⟩

omit [DecidableEq π] in
/-- The temporary file is there, and so holds the text to its end. -/
theorem Disk.Sound.text_eq {w : Write ω π χ} {text : List χ}
    {before after : List (Write ω π χ × ℕ)}
    (h : (Disk.mk files (before ++ (w, w.text.length) :: after)).Sound writes)
    (hfile : files w.temp = some text) : text = w.text := by
  have hw := h.underWay (w, w.text.length) (by simp)
  rcases hw.file with hnone | hsome
  · exact absurd (hnone.symm.trans hfile) (Option.some_ne_none _).symm
  · calc
      text = w.text.take w.text.length := Option.some.inj (hfile.symm.trans hsome)
      _ = w.text := List.take_length

theorem Disk.Step.isOf (hstep : Disk.Step writes s events s') (h : s.Sound writes) :
    ∀ e ∈ events, e.IsOf writes := by
  cases hstep with
  | @rename files w text before after hends hfile =>
      intro e he
      obtain rfl := List.mem_singleton.mp he
      exact ⟨(h.underWay (w, w.text.length) (by simp)).begun, hends⟩
  | remove p =>
      intro e he
      obtain rfl := List.mem_singleton.mp he
      trivial
  | create | append | giveUp | crash => exact fun e he ↦ absurd he List.not_mem_nil

/-- What a step does to the files happens at one moment: a write takes place when its
temporary file is renamed. -/
theorem Disk.Step.shows (hwrites : ∀ w, writes w → isTemp w.temp ∧ ¬isTemp w.target)
    (hstep : Disk.Step writes s events s') (h : s.Sound writes)
    (hshows : s.Shows isTemp files) : s'.Shows isTemp (filesAfter files events) := by
  intro p hp
  have htemp : ∀ w, writes w → p ≠ w.temp := fun w hw heq ↦ hp (heq ▸ (hwrites w hw).1)
  cases hstep with
  | @create _ w hw hfile hactive =>
      exact (Function.update_of_ne (htemp w hw) _ _).trans (hshows p hp)
  | @append _ w n m before after hn hm =>
      have hw := h.underWay (w, n) (by simp)
      exact (appendTo_of_ne (htemp w hw.begun)).trans (hshows p hp)
  | @rename _ w text before after hends hfile =>
      have hw := h.underWay (w, w.text.length) (by simp)
      obtain rfl := h.text_eq hfile
      apply (Function.update_of_ne (htemp w hw.begun) _ _).trans
      exact update_congr (hshows p hp)
  | giveUp => exact hshows p hp
  | remove => exact update_congr (hshows p hp)
  | crash => exact hshows p hp

theorem Disk.Run.trans {s'' : Disk ω π χ} (hrun : Disk.Run writes s events s')
    (hlater : Disk.Run writes s' later s'') : Disk.Run writes s (events ++ later) s'' := by
  induction hlater with
  | refl =>
      rw [List.append_nil]
      exact hrun
  | tail _ hstep ih =>
      rw [← List.append_assoc]
      exact ih.tail hstep

theorem Disk.Run.sound (hwrites : ∀ w, writes w → isTemp w.temp ∧ ¬isTemp w.target)
    (hrun : Disk.Run writes s events s') (h : s.Sound writes) : s'.Sound writes := by
  induction hrun with
  | refl => exact h
  | tail _ hstep ih => exact hstep.sound hwrites ih

theorem Disk.Run.isOf (hwrites : ∀ w, writes w → isTemp w.temp ∧ ¬isTemp w.target)
    (hrun : Disk.Run writes s events s') (h : s.Sound writes) :
    ∀ e ∈ events, e.IsOf writes := by
  induction hrun with
  | refl => exact fun e he ↦ absurd he List.not_mem_nil
  | tail hrun hstep ih =>
      intro e he
      rcases List.mem_append.mp he with he | he
      · exact ih e he
      · exact hstep.isOf (hrun.sound hwrites h) e he

/-- However the writes ran, the files are what the events make of them one by one. -/
theorem Disk.Run.shows (hwrites : ∀ w, writes w → isTemp w.temp ∧ ¬isTemp w.target)
    (hrun : Disk.Run writes s events s') (h : s.Sound writes)
    (hshows : s.Shows isTemp files) : s'.Shows isTemp (filesAfter files events) := by
  induction hrun with
  | refl => exact hshows
  | tail hrun hstep ih =>
      rw [filesAfter, List.foldl_append]
      exact hstep.shows hwrites (hrun.sound hwrites h) ih

end Refinement

end StorageReconciler.AtomicFiles
