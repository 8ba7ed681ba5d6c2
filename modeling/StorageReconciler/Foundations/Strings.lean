import Mathlib.Data.List.DropRight
import Mathlib.Data.List.TakeWhile
import Mathlib.Data.List.Induction
import Mathlib.Tactic.Common

/-!
# Strings as lists of code points

The string operations of the host language that the model uses, each under the
name of the operation it stands for.  What depends on the Unicode tables of the
interpreter is collected in one structure, whose fields say how the tables
treat ASCII; nothing else is ever assumed about them.
-/

namespace StorageReconciler

abbrev Str := List Char

namespace Strings

/-- What holds of the members of a list is decided along the list, also where the type
of the members is finite. -/
instance (priority := high) decidableForallMem {α : Type*} (p : α → Prop) [DecidablePred p]
    (l : List α) : Decidable (∀ x ∈ l, p x) :=
  List.decidableBAll p l

/-- The code points of `str.isspace`, which are also those `\s` matches. -/
def isSpace (c : Char) : Bool :=
  let n := c.toNat
  (9 ≤ n && n ≤ 13) || (28 ≤ n && n ≤ 32) || n == 0x85 || n == 0xA0 || n == 0x1680 ||
    (0x2000 ≤ n && n ≤ 0x200A) || n == 0x2028 || n == 0x2029 || n == 0x202F ||
    n == 0x205F || n == 0x3000

def isAscii (c : Char) : Bool := c.toNat < 128

/-- A property of ASCII characters is checked one by one. -/
theorem forall_ascii {P : Char → Prop} (hP : ∀ n < 128, P (Char.ofNat n)) {c : Char}
    (hc : isAscii c = true) : P c := by
  have hlt : c.toNat < 128 := by simpa [isAscii] using hc
  simpa using hP c.toNat hlt

def strip (s : Str) : Str := (s.dropWhile isSpace).rdropWhile isSpace

/-- `s.lstrip(c)` for a single character `c`. -/
def lstripChar (c : Char) (s : Str) : Str := s.dropWhile (· == c)

/-- `s.rstrip(c)` for a single character `c`. -/
def rstripChar (c : Char) (s : Str) : Str := s.rdropWhile (· == c)

/-- `t in s` -/
def occursIn (t s : Str) : Bool := s.tails.any fun u ↦ t.isPrefixOf u

/-- The first and last components of `s.partition(c)`. -/
def partition (c : Char) (s : Str) : Str × Str :=
  (s.takeWhile (· != c), (s.dropWhile (· != c)).tail)

/-- Tables the interpreter consults outside ASCII. -/
structure Tables where
  lowerChar : Char → Str
  lowerChar_ascii : ∀ c, isAscii c = true → lowerChar c = [c.toLower]
  nfkc : Str → Str
  /-- Whether the text between the brackets of a host is an IP literal. -/
  bracketedHostOk : Str → Bool
  isDecimal : Char → Bool
  /-- Whether the `idna` codec encodes a name outside ASCII. -/
  idnaOk : Str → Bool

def Tables.ascii : Tables where
  lowerChar c := [c.toLower]
  lowerChar_ascii _ _ := rfl
  nfkc := id
  bracketedHostOk _ := true
  isDecimal _ := false
  idnaOk _ := true

def lower (T : Tables) (s : Str) : Str := s.flatMap T.lowerChar

@[simp] theorem lower_nil (T : Tables) : lower T [] = [] := rfl

@[simp] theorem lower_append (T : Tables) (s t : Str) :
    lower T (s ++ t) = lower T s ++ lower T t := by
  simp [lower]

theorem lower_of_ascii (T : Tables) {s : Str} (hs : ∀ c ∈ s, isAscii c = true) :
    lower T s = s.map Char.toLower := by
  induction s with
  | nil => rfl
  | cons c s ih =>
      have hc := T.lowerChar_ascii c (hs c (by simp))
      have htail := ih fun d hd ↦ hs d (List.mem_cons_of_mem c hd)
      simp only [lower, List.flatMap_cons, hc, List.map_cons] at htail ⊢
      rw [htail]
      rfl

theorem strip_eq_self_iff {s : Str} :
    strip s = s ↔
      (∀ hs : s ≠ [], isSpace (s.head hs) = false) ∧
        ∀ hs : s ≠ [], isSpace (s.getLast hs) = false := by
  constructor
  · intro h
    have hpre : strip s <+: s.dropWhile isSpace := List.rdropWhile_prefix _ _
    have hlen : (s.dropWhile isSpace).length = s.length := by
      apply le_antisymm (List.length_dropWhile_le _ _)
      calc
        s.length = (strip s).length := by rw [h]
        _ ≤ (s.dropWhile isSpace).length := hpre.length_le
    have hdrop : s.dropWhile isSpace = s :=
      (List.dropWhile_suffix isSpace).eq_of_length hlen
    have hrdrop : s.rdropWhile isSpace = s := by
      simpa [strip, hdrop] using h
    refine ⟨fun hs ↦ ?_, fun hs ↦ ?_⟩
    · cases s with
      | nil => exact absurd rfl hs
      | cons c s =>
          by_contra hc
          have hc' : isSpace c = true := by simpa using hc
          rw [List.dropWhile_cons_of_pos hc'] at hdrop
          have hlt := (List.length_dropWhile_le isSpace s)
          rw [hdrop, List.length_cons] at hlt
          omega
    · have := List.rdropWhile_eq_self_iff.mp hrdrop hs
      simpa using this
  · rintro ⟨hhead, hlast⟩
    have hdrop : s.dropWhile isSpace = s := by
      cases s with
      | nil => rfl
      | cons c s =>
          have hc : isSpace c = false := hhead (by simp)
          exact List.dropWhile_cons_of_neg (by simp [hc])
    rw [strip, hdrop]
    exact List.rdropWhile_eq_self_iff.mpr fun hs ↦ by simpa using hlast hs

theorem strip_of_forall {s : Str} (hs : ∀ c ∈ s, isSpace c = false) : strip s = s :=
  strip_eq_self_iff.mpr
    ⟨fun h ↦ hs _ (List.head_mem h), fun h ↦ hs _ (List.getLast_mem h)⟩

theorem lstripChar_eq_self {c : Char} {s : Str} (hs : s.head? ≠ some c) :
    lstripChar c s = s := by
  cases s with
  | nil => rfl
  | cons d s =>
      have hd : d ≠ c := by simpa using hs
      exact List.dropWhile_cons_of_neg (by simpa using hd)

theorem length_lstripChar_le (c : Char) (s : Str) : (lstripChar c s).length ≤ s.length :=
  List.length_dropWhile_le _ _

theorem lstripChar_suffix (c : Char) (s : Str) : lstripChar c s <:+ s :=
  List.dropWhile_suffix _

theorem head?_lstripChar_ne (c : Char) (s : Str) : (lstripChar c s).head? ≠ some c := by
  induction s with
  | nil => simp [lstripChar]
  | cons d s ih =>
      by_cases hd : d = c
      · subst hd
        simpa [lstripChar] using ih
      · simp [lstripChar, hd]

theorem partition_append {c : Char} {s t : Str} (hs : c ∉ s) :
    partition c (s ++ c :: t) = (s, t) := by
  have hne : ∀ d ∈ s, (d != c) = true := by
    intro d hd
    simp only [bne_iff_ne, ne_eq]
    rintro rfl
    exact hs hd
  simp [partition, List.takeWhile_append_of_pos hne, List.dropWhile_append_of_pos hne]

theorem partition_of_notMem {c : Char} {s : Str} (hs : c ∉ s) : partition c s = (s, []) := by
  have hne : ∀ d ∈ s, (d != c) = true := by
    intro d hd
    simp only [bne_iff_ne, ne_eq]
    rintro rfl
    exact hs hd
  have htake : s.takeWhile (· != c) = s := List.takeWhile_eq_self_iff.mpr hne
  have hdrop : s.dropWhile (· != c) = [] := List.dropWhile_eq_nil_iff.mpr hne
  simp [partition, htake, hdrop]

end Strings

end StorageReconciler
