import Mathlib.Data.Char
import Mathlib.Data.List.Lex
import Mathlib.Data.Nat.Digits.Defs
import StorageReconciler.Foundations.Strings

/-!
# Timestamps as ISO texts

A moment of universal time by its calendar fields, which are packed into one number
and written as `YYYY-MM-DDTHH:MM:SS.ffffff+00:00`, where microseconds that are zero
are left out.
-/

namespace StorageReconciler.IsoTimestamps

open Strings

/-! ## Digits -/

def digit (n : ℕ) : Char := Char.ofNat (0x30 + n)

/-- The last digits of a number, as many as asked for. -/
def pad : ℕ → ℕ → Str
  | 0, _ => []
  | w + 1, n => digit (n / 10 ^ w % 10) :: pad w n

/-- The number that so many digits continue, and the rest. -/
def readDigits : ℕ → ℕ → Str → Option (ℕ × Str)
  | 0, n, s => some (n, s)
  | _ + 1, _, [] => none
  | w + 1, n, c :: s => if c.isDigit then readDigits w (10 * n + (c.toNat - 0x30)) s else none

theorem digit_spec {n : ℕ} (hn : n < 10) :
    (digit n).isDigit = true ∧ (digit n).toNat - 0x30 = n := by
  decide +revert

theorem readDigits_pad (w n m : ℕ) (rest : Str) :
    readDigits w m (pad w n ++ rest) = some (10 ^ w * m + n % 10 ^ w, rest) := by
  induction w generalizing m with
  | zero => simp [readDigits, pad, Nat.mod_one]
  | succ w ih =>
      obtain ⟨hdigit, hvalue⟩ := digit_spec (Nat.mod_lt (n / 10 ^ w) (Nat.succ_pos 9))
      have hsplit := Nat.mod_pow_succ (b := 10) (x := n) (k := w)
      simp only [pad, List.cons_append, readDigits, hdigit, if_true, hvalue, ih]
      congr 2
      rw [hsplit]
      ring

theorem readDigits_pad_of_lt {w n : ℕ} (hn : n < 10 ^ w) (rest : Str) :
    readDigits w 0 (pad w n ++ rest) = some (n, rest) := by
  rw [readDigits_pad, Nat.mod_eq_of_lt hn, Nat.mul_zero, Nat.zero_add]

/-- The rest after a character that has to be there. -/
def expect (c : Char) : Str → Option Str
  | [] => none
  | d :: s => if d = c then some s else none

@[simp] theorem expect_cons (c : Char) (s : Str) : expect c (c :: s) = some s := if_pos rfl

/-! ## Fields -/

def isLeap (year : ℕ) : Bool := year % 4 == 0 && (year % 100 != 0 || year % 400 == 0)

def daysInMonth (year month : ℕ) : ℕ :=
  if month = 2 then if isLeap year then 29 else 28
  else if month = 4 ∨ month = 6 ∨ month = 9 ∨ month = 11 then 30
  else 31

structure Fields where
  year : ℕ
  month : ℕ
  day : ℕ
  hour : ℕ
  minute : ℕ
  second : ℕ
  microsecond : ℕ
  deriving DecidableEq

namespace Fields

structure IsValid (f : Fields) : Prop where
  year : 1 ≤ f.year ∧ f.year ≤ 9999
  month : 1 ≤ f.month ∧ f.month ≤ 12
  day : 1 ≤ f.day ∧ f.day ≤ daysInMonth f.year f.month
  hour : f.hour < 24
  minute : f.minute < 60
  second : f.second < 60
  microsecond : f.microsecond < 1000000

instance (f : Fields) : Decidable f.IsValid :=
  decidable_of_iff ((1 ≤ f.year ∧ f.year ≤ 9999) ∧ (1 ≤ f.month ∧ f.month ≤ 12) ∧
      (1 ≤ f.day ∧ f.day ≤ daysInMonth f.year f.month) ∧ f.hour < 24 ∧ f.minute < 60 ∧
      f.second < 60 ∧ f.microsecond < 1000000)
    ⟨fun ⟨hy, hmo, hd, hh, hmi, hs, hus⟩ ↦ ⟨hy, hmo, hd, hh, hmi, hs, hus⟩,
      fun h ↦ ⟨h.year, h.month, h.day, h.hour, h.minute, h.second, h.microsecond⟩⟩

/-- The fields in one number, which grows with time. -/
def number (f : Fields) : ℕ :=
  (((((f.year * 13 + f.month) * 32 + f.day) * 24 + f.hour) * 60 + f.minute) * 60 + f.second) *
    1000000 + f.microsecond

def ofNumber (n : ℕ) : Fields where
  year := n / 1000000 / 60 / 60 / 24 / 32 / 13
  month := n / 1000000 / 60 / 60 / 24 / 32 % 13
  day := n / 1000000 / 60 / 60 / 24 % 32
  hour := n / 1000000 / 60 / 60 % 24
  minute := n / 1000000 / 60 % 60
  second := n / 1000000 % 60
  microsecond := n % 1000000

/-- `datetime.isoformat` -/
def text (f : Fields) : Str :=
  pad 4 f.year ++ '-' :: (pad 2 f.month ++ '-' :: (pad 2 f.day ++ 'T' :: (pad 2 f.hour ++ ':' ::
    (pad 2 f.minute ++ ':' :: (pad 2 f.second ++
      ((if f.microsecond = 0 then [] else '.' :: pad 6 f.microsecond) ++ "+00:00".toList))))))

/-- The fraction of a second, if there is one. -/
def readFraction : Str → Option (ℕ × Str)
  | '.' :: s => readDigits 6 0 s
  | s => some (0, s)

def read (s : Str) : Option Fields := do
  let (year, s) ← readDigits 4 0 s
  let s ← expect '-' s
  let (month, s) ← readDigits 2 0 s
  let s ← expect '-' s
  let (day, s) ← readDigits 2 0 s
  let s ← expect 'T' s
  let (hour, s) ← readDigits 2 0 s
  let s ← expect ':' s
  let (minute, s) ← readDigits 2 0 s
  let s ← expect ':' s
  let (second, s) ← readDigits 2 0 s
  let (microsecond, s) ← readFraction s
  if s = "+00:00".toList then some ⟨year, month, day, hour, minute, second, microsecond⟩ else none

theorem daysInMonth_le (year month : ℕ) : daysInMonth year month ≤ 31 := by
  unfold daysInMonth
  split_ifs <;> omega

theorem ofNumber_number {f : Fields} (h : f.IsValid) : ofNumber f.number = f := by
  have hmonth := h.month.2
  have hday := h.day.2.trans (daysInMonth_le _ _)
  have hhour := h.hour
  have hminute := h.minute
  have hsecond := h.second
  have hmicrosecond := h.microsecond
  have hsplit : ∀ {b a r : ℕ}, r < b → (a * b + r) / b = a ∧ (a * b + r) % b = r := by
    intro b a r hr
    rw [Nat.mul_comm]
    exact ⟨by rw [Nat.mul_add_div (by omega), Nat.div_eq_of_lt hr, Nat.add_zero],
      by rw [Nat.mul_add_mod, Nat.mod_eq_of_lt hr]⟩
  simp only [ofNumber, number, hsplit hmicrosecond, hsplit hsecond, hsplit hminute, hsplit hhour,
    hsplit (show f.day < 32 by omega), hsplit (show f.month < 13 by omega)]

theorem readFraction_text {n : ℕ} (hn : n < 1000000) :
    readFraction ((if n = 0 then [] else '.' :: pad 6 n) ++ "+00:00".toList) =
      some (n, "+00:00".toList) := by
  by_cases hzero : n = 0
  · subst hzero
    rfl
  · rw [if_neg hzero]
    exact readDigits_pad_of_lt hn _

theorem read_text {f : Fields} (h : f.IsValid) : read f.text = some f := by
  have hyear := h.year.2
  have hmonth := h.month.2
  have hday := h.day.2.trans (daysInMonth_le _ _)
  have hhour := h.hour
  have hminute := h.minute
  have hsecond := h.second
  have htwo : ∀ {n : ℕ}, n < 100 → ∀ rest, readDigits 2 0 (pad 2 n ++ rest) = some (n, rest) :=
    fun hn rest ↦ readDigits_pad_of_lt hn rest
  simp only [read, text, readDigits_pad_of_lt (show f.year < 10 ^ 4 by omega),
    htwo (show f.month < 100 by omega), htwo (show f.day < 100 by omega),
    htwo (show f.hour < 100 by omega), htwo (show f.minute < 100 by omega),
    htwo (show f.second < 100 by omega), expect_cons, readFraction_text h.microsecond,
    Option.bind_eq_bind, Option.bind_some, if_true]

theorem text_ne_nil (f : Fields) : f.text ≠ [] := List.cons_ne_nil _ _

end Fields

/-! ## Texts -/

def isoformat (n : ℕ) : Str := (Fields.ofNumber n).text

/-- The texts that `isoformat` writes are read, other spellings are not. -/
def fromisoformat (s : Str) : Option ℕ :=
  (Fields.read s).bind fun f ↦ if f.IsValid then some f.number else none

/-- The number of a moment. -/
def IsMoment (n : ℕ) : Prop := ∃ f : Fields, f.IsValid ∧ f.number = n

theorem fromisoformat_isoformat {n : ℕ} (h : IsMoment n) :
    fromisoformat (isoformat n) = some n := by
  obtain ⟨f, hf, rfl⟩ := h
  rw [fromisoformat, isoformat, Fields.ofNumber_number hf, Fields.read_text hf]
  exact if_pos hf

theorem isoformat_ne_nil (n : ℕ) : isoformat n ≠ [] := Fields.text_ne_nil _

/-! ## The order of texts -/

theorem digit_lt {a b : ℕ} (h : a < b) (hb : b < 10) : digit a < digit b := by
  have hall : ∀ b < 10, ∀ a < b, digit a < digit b := by decide
  exact hall b hb a h

theorem pad_lt {w n m : ℕ} (h : n % 10 ^ w < m % 10 ^ w) (s t : Str) :
    pad w n ++ s < pad w m ++ t := by
  induction w with
  | zero => omega
  | succ w ih =>
      rw [Nat.mod_pow_succ, Nat.mod_pow_succ] at h
      have hm := Nat.mod_lt (m / 10 ^ w) (Nat.succ_pos 9)
      have hpos : 0 < 10 ^ w := Nat.pow_pos (Nat.succ_pos 9)
      rw [pad, pad, List.cons_append, List.cons_append, List.cons_lt_cons_iff]
      rcases Nat.lt_trichotomy (n / 10 ^ w % 10) (m / 10 ^ w % 10) with hlt | heq | hgt
      · exact .inl (digit_lt hlt hm)
      · rw [heq] at h ⊢
        exact .inr ⟨rfl, ih (by omega)⟩
      · -- a greater digit outweighs whatever follows
        have hstep := Nat.mul_le_mul_left (10 ^ w) (Nat.succ_le_of_lt hgt)
        rw [Nat.mul_succ] at hstep
        have hn := Nat.mod_lt m hpos
        omega

/-- Fields of one width decide the order, or else what follows them. -/
theorem field_lt {w n m : ℕ} (hm : m < 10 ^ w) {s t : Str} (h : n < m ∨ n = m ∧ s < t) :
    pad w n ++ s < pad w m ++ t := by
  rcases h with hlt | ⟨rfl, hst⟩
  · apply pad_lt
    rwa [Nat.mod_eq_of_lt hm, Nat.mod_eq_of_lt (hlt.trans hm)]
  · exact List.append_left_lt hst

theorem fraction_lt {n m : ℕ} (hm : m < 1000000) (h : n < m) :
    (if n = 0 then [] else '.' :: pad 6 n) ++ "+00:00".toList <
      (if m = 0 then [] else '.' :: pad 6 m) ++ "+00:00".toList := by
  rw [if_neg (show m ≠ 0 by omega)]
  by_cases hn : n = 0
  · rw [if_pos hn]
    exact List.cons_lt_cons_iff.mpr (.inl (by decide))
  · rw [if_neg hn, List.cons_append, List.cons_append]
    exact List.cons_lt_cons_iff.mpr (.inr ⟨rfl, field_lt hm (.inl h)⟩)

/-- Packed numbers are ordered as their parts. -/
theorem packed_lt {a a' b r r' : ℕ} (hr' : r' < b) (h : a * b + r < a' * b + r') :
    a < a' ∨ a = a' ∧ r < r' := by
  rcases Nat.lt_trichotomy a a' with hlt | rfl | hgt
  · exact .inl hlt
  · exact .inr ⟨rfl, by omega⟩
  · have hstep := Nat.mul_le_mul_right b (Nat.succ_le_of_lt hgt)
    rw [Nat.succ_mul] at hstep
    omega

theorem packed_eq {a a' b r r' : ℕ} (hr : r < b) (hr' : r' < b) (h : a * b + r = a' * b + r') :
    a = a' ∧ r = r' := by
  rcases Nat.lt_trichotomy a a' with hlt | rfl | hgt
  · have hstep := Nat.mul_le_mul_right b (Nat.succ_le_of_lt hlt)
    rw [Nat.succ_mul] at hstep
    omega
  · exact ⟨rfl, Nat.add_left_cancel h⟩
  · have hstep := Nat.mul_le_mul_right b (Nat.succ_le_of_lt hgt)
    rw [Nat.succ_mul] at hstep
    omega

/-- The last of the packed fields, written before what decides when they are equal. -/
theorem packed_field {a a' b r r' w : ℕ} {c : Char} {s t : Str} (hr : r < b) (hr' : r' < b)
    (hw : b ≤ 10 ^ w) (h : a * b + r < a' * b + r' ∨ a * b + r = a' * b + r' ∧ s < t) :
    a < a' ∨ a = a' ∧ c :: (pad w r ++ s) < c :: (pad w r' ++ t) := by
  have hfield : (r < r' ∨ r = r' ∧ s < t) → c :: (pad w r ++ s) < c :: (pad w r' ++ t) :=
    fun h ↦ List.cons_lt_cons_iff.mpr (.inr ⟨rfl, field_lt (hr'.trans_le hw) h⟩)
  rcases h with hlt | ⟨heq, hst⟩
  · rcases packed_lt hr' hlt with hless | ⟨rfl, hless⟩
    · exact .inl hless
    · exact .inr ⟨rfl, hfield (.inl hless)⟩
  · obtain ⟨rfl, rfl⟩ := packed_eq hr hr' heq
    exact .inr ⟨rfl, hfield (.inr ⟨rfl, hst⟩)⟩

theorem Fields.text_lt {f g : Fields} (hf : f.IsValid) (hg : g.IsValid)
    (h : f.number < g.number) : f.text < g.text := by
  have hday : ∀ {f : Fields}, f.IsValid → f.day < 32 := fun hf ↦
    Nat.lt_succ_of_le (hf.day.2.trans (daysInMonth_le _ _))
  apply field_lt (show g.year < 10 ^ 4 from Nat.lt_succ_of_le hg.year.2)
  apply packed_field (b := 13) (Nat.lt_succ_of_le hf.month.2) (Nat.lt_succ_of_le hg.month.2)
    (by decide)
  apply packed_field (b := 32) (hday hf) (hday hg) (by decide)
  apply packed_field hf.hour hg.hour (by decide)
  apply packed_field hf.minute hg.minute (by decide)
  apply packed_field hf.second hg.second (by decide)
  rcases packed_lt hg.microsecond h with hless | ⟨hsecond, hless⟩
  · exact .inl hless
  · exact .inr ⟨hsecond, fraction_lt hg.microsecond hless⟩

theorem isoformat_lt {n m : ℕ} (hn : IsMoment n) (hm : IsMoment m) (h : n < m) :
    isoformat n < isoformat m := by
  obtain ⟨f, hf, rfl⟩ := hn
  obtain ⟨g, hg, rfl⟩ := hm
  rw [isoformat, isoformat, Fields.ofNumber_number hf, Fields.ofNumber_number hg]
  exact Fields.text_lt hf hg h

/-- The texts of moments are ordered as time is. -/
theorem isoformat_le_iff {n m : ℕ} (hn : IsMoment n) (hm : IsMoment m) :
    isoformat n ≤ isoformat m ↔ n ≤ m := by
  constructor
  · intro hle
    by_contra hlt
    exact absurd (isoformat_lt hm hn (Nat.lt_of_not_le hlt)) (not_lt_of_ge hle)
  · intro hle
    rcases Nat.lt_or_eq_of_le hle with hlt | rfl
    · exact le_of_lt (isoformat_lt hn hm hlt)
    · exact le_rfl

end StorageReconciler.IsoTimestamps
