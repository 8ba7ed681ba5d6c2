import StorageReconciler.Foundations.Strings

/-!
# A text inside a JSON document

A serialized string keeps most characters and writes the others as a backslash
and a tail.  Cutting a text at a character that takes no part in this commutes
with escaping.
-/

namespace StorageReconciler.JsonEscape

open Strings

def isEscaped (c : Char) : Bool := c == '"' || c == '\\' || decide (c.toNat < 0x20)

def hexLetter (n : ℕ) : Char := Char.ofNat (if n < 10 then 0x30 + n else 0x57 + n)

/-- What follows the backslash. -/
def escapeTail (c : Char) : Str :=
  if c = '"' ∨ c = '\\' then [c]
  else if c.toNat = 8 then ['b']
  else if c.toNat = 9 then ['t']
  else if c.toNat = 10 then ['n']
  else if c.toNat = 12 then ['f']
  else if c.toNat = 13 then ['r']
  else ['u', '0', '0', hexLetter (c.toNat / 16), hexLetter (c.toNat % 16)]

def jsonEscapeChar (c : Char) : Str := if isEscaped c then '\\' :: escapeTail c else [c]

def jsonEscape (s : Str) : Str := s.flatMap jsonEscapeChar

@[simp] theorem jsonEscape_nil : jsonEscape [] = [] := rfl

@[simp] theorem jsonEscape_append (s t : Str) :
    jsonEscape (s ++ t) = jsonEscape s ++ jsonEscape t := by
  simp [jsonEscape]

theorem jsonEscape_cons (c : Char) (s : Str) :
    jsonEscape (c :: s) = jsonEscapeChar c ++ jsonEscape s := rfl

theorem jsonEscape_cons_plain {c : Char} (hc : isEscaped c = false) (s : Str) :
    jsonEscape (c :: s) = c :: jsonEscape s := by
  simp [jsonEscape_cons, jsonEscapeChar, hc]

theorem jsonEscape_cons_escaped {c : Char} (hc : isEscaped c = true) (s : Str) :
    jsonEscape (c :: s) = '\\' :: (escapeTail c ++ jsonEscape s) := by
  simp [jsonEscape_cons, jsonEscapeChar, hc]

theorem isAscii_of_isEscaped {c : Char} (hc : isEscaped c = true) : isAscii c = true := by
  simp only [isEscaped, Bool.or_eq_true, beq_iff_eq, decide_eq_true_eq] at hc
  rcases hc with (rfl | rfl) | hc
  · decide
  · decide
  · simp only [isAscii, decide_eq_true_eq]
    omega

theorem forall_escaped {P : Char → Prop}
    (hP : ∀ n < 128, isEscaped (Char.ofNat n) = true → P (Char.ofNat n)) {c : Char}
    (hc : isEscaped c = true) : P c :=
  forall_ascii (P := fun c ↦ isEscaped c = true → P c) hP (isAscii_of_isEscaped hc) hc

theorem escapeTail_ne_nil {c : Char} (hc : isEscaped c = true) : escapeTail c ≠ [] :=
  forall_escaped (P := fun c ↦ escapeTail c ≠ []) (by decide) hc

theorem length_le_jsonEscape (s : Str) : s.length ≤ (jsonEscape s).length := by
  induction s with
  | nil => simp
  | cons c s ih =>
      cases hc : isEscaped c with
      | false => simpa [jsonEscape_cons_plain hc] using ih
      | true =>
          rw [jsonEscape_cons_escaped hc]
          simp only [List.length_cons, List.length_append]
          omega

theorem jsonEscape_of_forall {s : Str} (hs : ∀ c ∈ s, isEscaped c = false) :
    jsonEscape s = s := by
  induction s with
  | nil => rfl
  | cons c s ih =>
      rw [jsonEscape_cons_plain (hs c (by simp)), ih fun d hd ↦ hs d (List.mem_cons_of_mem c hd)]

/-! ## Cutting -/

/-- The characters that escaping replaces or brings in all satisfy `p`. -/
def Transparent (p : Char → Bool) : Prop :=
  ∀ c, isEscaped c = true → p c = true ∧ ∀ d ∈ '\\' :: escapeTail c, p d = true

theorem Transparent.jsonEscapeChar {p : Char → Bool} (hp : Transparent p) (c : Char) :
    (p c = true ∧ ∀ d ∈ jsonEscapeChar c, p d = true) ∨
      (p c = false ∧ jsonEscapeChar c = [c]) := by
  cases hc : isEscaped c with
  | true => simpa [JsonEscape.jsonEscapeChar, hc] using Or.inl (hp c hc)
  | false =>
      cases hpc : p c <;> simp [JsonEscape.jsonEscapeChar, hc, hpc]

theorem takeWhile_jsonEscape {p : Char → Bool} (hp : Transparent p) (s : Str) :
    (jsonEscape s).takeWhile p = jsonEscape (s.takeWhile p) := by
  induction s with
  | nil => rfl
  | cons c s ih =>
      rw [jsonEscape_cons]
      rcases hp.jsonEscapeChar c with ⟨hpc, hall⟩ | ⟨hpc, hkeep⟩
      · rw [List.takeWhile_append_of_pos hall, ih, List.takeWhile_cons_of_pos hpc, jsonEscape_cons]
      · rw [hkeep]
        simp [hpc]

theorem dropWhile_jsonEscape {p : Char → Bool} (hp : Transparent p) (s : Str) :
    (jsonEscape s).dropWhile p = jsonEscape (s.dropWhile p) := by
  induction s with
  | nil => rfl
  | cons c s ih =>
      rw [jsonEscape_cons]
      rcases hp.jsonEscapeChar c with ⟨hpc, hall⟩ | ⟨hpc, hkeep⟩
      · rw [List.dropWhile_append_of_pos hall, ih, List.dropWhile_cons_of_pos hpc]
      · rw [hkeep]
        simp [hpc, jsonEscape_cons, hkeep]

theorem mem_jsonEscape_iff {s : Str} {c : Char} (hc : Transparent (· != c)) :
    c ∈ jsonEscape s ↔ c ∈ s := by
  have hne : ∀ d, (c ∈ jsonEscapeChar d) ↔ c = d := by
    intro d
    rcases hc.jsonEscapeChar d with ⟨hd, hall⟩ | ⟨_, hkeep⟩
    · have hcd : c ≠ d := by
        rintro rfl
        simp at hd
      refine iff_of_false (fun h ↦ ?_) hcd
      simpa using hall c h
    · simp [hkeep]
  simp [jsonEscape, hne]

theorem transparent_of_decide {p : Char → Bool}
    (h : ∀ n < 128, isEscaped (Char.ofNat n) = true → p (Char.ofNat n) = true ∧
      ∀ d ∈ '\\' :: escapeTail (Char.ofNat n), p d = true) : Transparent p :=
  fun _ hc ↦ forall_escaped (P := fun c ↦ p c = true ∧ ∀ d ∈ '\\' :: escapeTail c, p d = true) h hc

end StorageReconciler.JsonEscape
