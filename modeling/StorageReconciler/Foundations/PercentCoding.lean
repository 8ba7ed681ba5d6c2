import Mathlib.Tactic.IntervalCases
import StorageReconciler.Foundations.Strings

/-!
# Percent-coding of UTF-8 text

`unquote` replaces percent triplets by the bytes they name and decodes every
run of ASCII characters as UTF-8, writing U+FFFD for each maximal ill-formed
piece.  `Spells` is the other direction as a relation: the ways a text may be
written with some characters raw and the others percent-encoded.  A spelling is
always decoded back to its text, whatever stands around it.
-/

namespace StorageReconciler.PercentCoding

open Strings

/-! ## UTF-8 -/

def utf8Bytes (c : Char) : List ℕ :=
  let n := c.toNat
  if n < 0x80 then [n]
  else if n < 0x800 then [0xC0 + n / 64, 0x80 + n % 64]
  else if n < 0x10000 then [0xE0 + n / 4096, 0x80 + n / 64 % 64, 0x80 + n % 64]
  else [0xF0 + n / 262144, 0x80 + n / 4096 % 64, 0x80 + n / 64 % 64, 0x80 + n % 64]

def replacement : Char := Char.ofNat 0xFFFD

/-- Between characters, or owing `need + 1` continuation bytes of which the
next must lie in `[lo, hi]`. -/
inductive DecoderState where
  | ready
  | owing (need code lo hi : ℕ)
  deriving DecidableEq

namespace DecoderState

/-- What the end of the input leaves behind. -/
def flush : DecoderState → Str
  | ready => []
  | owing .. => [replacement]

def first (b : ℕ) : Str × DecoderState :=
  if b < 0x80 then ([Char.ofNat b], ready)
  else if 0xC2 ≤ b ∧ b ≤ 0xDF then ([], owing 0 (b - 0xC0) 0x80 0xBF)
  else if b = 0xE0 then ([], owing 1 0 0xA0 0xBF)
  else if b = 0xED then ([], owing 1 (b - 0xE0) 0x80 0x9F)
  else if 0xE1 ≤ b ∧ b ≤ 0xEF then ([], owing 1 (b - 0xE0) 0x80 0xBF)
  else if b = 0xF0 then ([], owing 2 0 0x90 0xBF)
  else if b = 0xF4 then ([], owing 2 (b - 0xF0) 0x80 0x8F)
  else if 0xF1 ≤ b ∧ b ≤ 0xF3 then ([], owing 2 (b - 0xF0) 0x80 0xBF)
  else ([replacement], ready)

def step : DecoderState → ℕ → Str × DecoderState
  | ready, b => first b
  | owing need code lo hi, b =>
      if lo ≤ b ∧ b ≤ hi then
        match need with
        | 0 => ([Char.ofNat (code * 64 + (b - 0x80))], ready)
        | need + 1 => ([], owing need (code * 64 + (b - 0x80)) 0x80 0xBF)
      else
        -- the byte that breaks a sequence is read again as a first byte
        (replacement :: (first b).1, (first b).2)

/-- The text a run of bytes yields, and what it leaves pending. -/
def feed : DecoderState → List ℕ → Str × DecoderState
  | s, [] => ([], s)
  | s, b :: bs => ((s.step b).1 ++ ((s.step b).2.feed bs).1, ((s.step b).2.feed bs).2)

theorem step_owing_zero (code : ℕ) {lo hi b : ℕ} (hb : lo ≤ b ∧ b ≤ hi) :
    (owing 0 code lo hi).step b = ([Char.ofNat (code * 64 + (b - 0x80))], ready) := by
  simp [step, hb]

theorem step_owing_succ (need code : ℕ) {lo hi b : ℕ} (hb : lo ≤ b ∧ b ≤ hi) :
    (owing (need + 1) code lo hi).step b =
      ([], owing need (code * 64 + (b - 0x80)) 0x80 0xBF) := by
  simp [step, hb]

theorem step_owing_out {need code lo hi b : ℕ} (hb : ¬(lo ≤ b ∧ b ≤ hi)) :
    (owing need code lo hi).step b = (replacement :: (first b).1, (first b).2) := by
  simp [step, hb]

/-- Continuation bytes are never below `0x80`. -/
def Sound : DecoderState → Prop
  | ready => True
  | owing _ _ lo _ => 0x80 ≤ lo

theorem sound_ready : Sound ready := trivial

theorem sound_first (b : ℕ) : Sound (first b).2 := by
  unfold first
  split_ifs <;> simp [Sound]

theorem Sound.step {s : DecoderState} (hs : s.Sound) (b : ℕ) : (s.step b).2.Sound := by
  cases s with
  | ready => exact sound_first b
  | owing need code lo hi =>
      by_cases hb : lo ≤ b ∧ b ≤ hi
      · cases need with
        | zero => simp [step_owing_zero code hb, Sound]
        | succ need => simp [step_owing_succ need code hb, Sound]
      · rw [step_owing_out hb]
        exact sound_first b

theorem Sound.step_ascii {s : DecoderState} (hs : s.Sound) {b : ℕ} (hb : b < 0x80) :
    s.step b = (s.flush ++ [Char.ofNat b], ready) := by
  cases s with
  | ready => simp [DecoderState.step, first, hb, flush]
  | owing need code lo hi =>
      have hlo : 0x80 ≤ lo := hs
      rw [step_owing_out (by omega)]
      simp [first, hb, flush]

theorem step_ready_two {n : ℕ} (hlow : 0x80 ≤ n) (hhigh : n < 0x800) :
    ready.step (0xC0 + n / 64) = ([], owing 0 (n / 64) 0x80 0xBF) := by
  simp only [step, first]
  rw [if_neg (by omega), if_pos (by omega)]
  simp

theorem step_ready_three {n : ℕ} (hlow : 0x800 ≤ n) (hhigh : n < 0x10000)
    (hvalid : n < 0xD800 ∨ 0xDFFF < n) :
    ∃ lo hi, lo ≤ 0x80 + n / 64 % 64 ∧ 0x80 + n / 64 % 64 ≤ hi ∧
      ready.step (0xE0 + n / 4096) = ([], owing 1 (n / 4096) lo hi) := by
  simp only [step, first]
  rw [if_neg (by omega), if_neg (by omega)]
  split_ifs with he0 hed heb
  · exact ⟨0xA0, 0xBF, by omega, by omega, by simp; omega⟩
  · exact ⟨0x80, 0x9F, by omega, by omega, by simp⟩
  · exact ⟨0x80, 0xBF, by omega, by omega, by simp⟩
  all_goals omega

theorem step_ready_four {n : ℕ} (hlow : 0x10000 ≤ n) (hhigh : n < 0x110000) :
    ∃ lo hi, lo ≤ 0x80 + n / 4096 % 64 ∧ 0x80 + n / 4096 % 64 ≤ hi ∧
      ready.step (0xF0 + n / 262144) = ([], owing 2 (n / 262144) lo hi) := by
  simp only [step, first]
  rw [if_neg (by omega), if_neg (by omega), if_neg (by omega), if_neg (by omega),
    if_neg (by omega)]
  split_ifs with hf0 hf4 hfb
  · exact ⟨0x90, 0xBF, by omega, by omega, by simp; omega⟩
  · exact ⟨0x80, 0x8F, by omega, by omega, by simp⟩
  · exact ⟨0x80, 0xBF, by omega, by omega, by simp⟩
  all_goals omega

theorem feed_utf8Bytes (c : Char) : ready.feed (utf8Bytes c) = ([c], ready) := by
  have hvalid : c.toNat < 0xD800 ∨ 0xDFFF < c.toNat ∧ c.toNat < 0x110000 := c.valid
  have hdec : ∀ m, m = c.toNat → Char.ofNat m = c := by
    rintro m rfl
    exact Char.ofNat_toNat c
  unfold utf8Bytes
  simp only
  generalize c.toNat = n at *
  split_ifs with h₁ h₂ h₃
  · simp [feed, step, first, h₁, hdec n rfl]
  · have hfirst := step_ready_two (not_lt.mp h₁) h₂
    have hcode := hdec (n / 64 * 64 + (0x80 + n % 64 - 0x80)) (by omega)
    have hlast := step_owing_zero (n / 64) (show 0x80 ≤ 0x80 + n % 64 ∧
      0x80 + n % 64 ≤ 0xBF by omega)
    simp only [feed, hfirst, hlast, hcode, List.nil_append, List.append_nil]
  · obtain ⟨lo, hi, hlo, hhi, hfirst⟩ := step_ready_three (not_lt.mp h₂) h₃ (by omega)
    have hcode := hdec ((n / 4096 * 64 + (0x80 + n / 64 % 64 - 0x80)) * 64 +
      (0x80 + n % 64 - 0x80)) (by omega)
    have hmid := step_owing_succ 0 (n / 4096) ⟨hlo, hhi⟩
    have hlast := step_owing_zero
      (n / 4096 * 64 + (0x80 + n / 64 % 64 - 0x80))
      (show 0x80 ≤ 0x80 + n % 64 ∧ 0x80 + n % 64 ≤ 0xBF by omega)
    simp only [feed, hfirst, hmid, hlast, hcode, List.nil_append, List.append_nil]
  · obtain ⟨lo, hi, hlo, hhi, hfirst⟩ := step_ready_four (not_lt.mp h₃) (by omega)
    have hcode := hdec (((n / 262144 * 64 + (0x80 + n / 4096 % 64 - 0x80)) * 64 +
      (0x80 + n / 64 % 64 - 0x80)) * 64 + (0x80 + n % 64 - 0x80)) (by omega)
    have hsecond := step_owing_succ 1 (n / 262144) ⟨hlo, hhi⟩
    have hthird := step_owing_succ 0
      (n / 262144 * 64 + (0x80 + n / 4096 % 64 - 0x80))
      (show 0x80 ≤ 0x80 + n / 64 % 64 ∧ 0x80 + n / 64 % 64 ≤ 0xBF by omega)
    have hlast := step_owing_zero
      ((n / 262144 * 64 + (0x80 + n / 4096 % 64 - 0x80)) * 64 +
        (0x80 + n / 64 % 64 - 0x80))
      (show 0x80 ≤ 0x80 + n % 64 ∧ 0x80 + n % 64 ≤ 0xBF by omega)
    simp only [feed, hfirst, hsecond, hthird, hlast, hcode, List.nil_append, List.append_nil]

end DecoderState

/-! ## Percent triplets -/

def hexDigit (c : Char) : Option ℕ :=
  let n := c.toNat
  if 0x30 ≤ n ∧ n ≤ 0x39 then some (n - 0x30)
  else if 0x41 ≤ n ∧ n ≤ 0x46 then some (n - 0x37)
  else if 0x61 ≤ n ∧ n ≤ 0x66 then some (n - 0x57)
  else none

def hexByte (h l : Char) : Option ℕ :=
  match hexDigit h, hexDigit l with
  | some a, some b => some (a * 16 + b)
  | _, _ => none

/-- What percent-decoding sees: bytes still to be decoded, or a character
outside ASCII, which is passed on as it is. -/
inductive Token where
  | byte (b : ℕ)
  | char (c : Char)
  deriving DecidableEq

def plainToken (c : Char) : Token :=
  if isAscii c then .byte c.toNat else .char c

/-- A `%` that two hexadecimal digits do not follow stands for itself. -/
def percentTokens : Str → List Token
  | [] => []
  | [c] => [plainToken c]
  | [c, d] => [plainToken c, plainToken d]
  | c :: h :: l :: rest =>
      if c = '%' then
        match hexByte h l with
        | some b => .byte b :: percentTokens rest
        | none => plainToken c :: percentTokens (h :: l :: rest)
      else plainToken c :: percentTokens (h :: l :: rest)

/-- Each run of bytes is decoded on its own. -/
def decodeTokens : DecoderState → List Token → Str
  | s, [] => s.flush
  | s, .byte b :: ts => (s.step b).1 ++ decodeTokens (s.step b).2 ts
  | s, .char c :: ts => s.flush ++ c :: decodeTokens .ready ts

def unquote (s : Str) : Str := decodeTokens .ready (percentTokens s)

theorem percentTokens_cons_of {c : Char} {rest : Str}
    (hno : ∀ h l r, c = '%' → rest = h :: l :: r → hexByte h l = none) :
    percentTokens (c :: rest) = plainToken c :: percentTokens rest := by
  match rest, hno with
  | [], _ => rfl
  | [_], _ => rfl
  | h :: l :: r, hno =>
      by_cases hc : c = '%'
      · simp [percentTokens, hc, hno h l r hc rfl]
      · simp [percentTokens, hc]

theorem percentTokens_cons {c : Char} (hc : c ≠ '%') (rest : Str) :
    percentTokens (c :: rest) = plainToken c :: percentTokens rest :=
  percentTokens_cons_of fun _ _ _ h ↦ absurd h hc

theorem percentTokens_triplet {h l : Char} {b : ℕ} (hb : hexByte h l = some b) (rest : Str) :
    percentTokens ('%' :: h :: l :: rest) = .byte b :: percentTokens rest := by
  simp [percentTokens, hb]

/-- Neither `%` nor a hexadecimal digit, so that no triplet reaches across it. -/
def Separates (c : Char) : Prop := isAscii c = true ∧ c ≠ '%' ∧ hexDigit c = none

instance (c : Char) : Decidable (Separates c) :=
  inferInstanceAs (Decidable (_ ∧ _ ∧ _))

theorem Separates.plainToken_eq {c : Char} (hc : Separates c) :
    plainToken c = .byte c.toNat := by
  simp [plainToken, hc.1]

theorem hexByte_right_none {h l : Char} (hl : hexDigit l = none) : hexByte h l = none := by
  cases hh : hexDigit h <;> simp [hexByte, hh, hl]

theorem hexByte_left_none {h l : Char} (hh : hexDigit h = none) : hexByte h l = none := by
  simp [hexByte, hh]

theorem percentTokens_append {c : Char} (hc : Separates c) (x y : Str) :
    percentTokens (x ++ c :: y) = percentTokens x ++ percentTokens (c :: y) := by
  have hsingle : ∀ d, percentTokens (d :: c :: y) = plainToken d :: percentTokens (c :: y) := by
    intro d
    apply percentTokens_cons_of
    intro h l r _ heq
    obtain ⟨rfl, _⟩ := List.cons.inj heq
    exact hexByte_left_none hc.2.2
  induction x using percentTokens.induct with
  | case1 => rfl
  | case2 d => exact hsingle d
  | case3 d e =>
      have hfirst : percentTokens (d :: e :: c :: y) =
          plainToken d :: percentTokens (e :: c :: y) := by
        apply percentTokens_cons_of
        intro h l r _ heq
        simp only [List.cons.injEq] at heq
        obtain ⟨rfl, rfl, _⟩ := heq
        exact hexByte_right_none hc.2.2
      calc
        percentTokens ([d, e] ++ c :: y) = plainToken d :: percentTokens (e :: c :: y) := hfirst
        _ = plainToken d :: plainToken e :: percentTokens (c :: y) := by rw [hsingle e]
  | case4 h l rest b hb ih =>
      calc
        percentTokens ('%' :: h :: l :: (rest ++ c :: y)) =
            .byte b :: percentTokens (rest ++ c :: y) := percentTokens_triplet hb _
        _ = percentTokens ('%' :: h :: l :: rest) ++ percentTokens (c :: y) := by
          rw [percentTokens_triplet hb, ih, List.cons_append]
  | case5 h l rest hb ih =>
      have hno : ∀ t, percentTokens ('%' :: h :: l :: t) =
          plainToken '%' :: percentTokens (h :: l :: t) := by
        intro t
        apply percentTokens_cons_of
        intro h' l' r _ heq
        simp only [List.cons.injEq] at heq
        obtain ⟨rfl, rfl, _⟩ := heq
        exact hb
      calc
        percentTokens ('%' :: h :: l :: (rest ++ c :: y)) =
            plainToken '%' :: percentTokens (h :: l :: rest ++ c :: y) := hno _
        _ = percentTokens ('%' :: h :: l :: rest) ++ percentTokens (c :: y) := by
          rw [hno, ih, List.cons_append]
  | case6 d h l rest hd ih =>
      calc
        percentTokens (d :: (h :: l :: rest ++ c :: y)) =
            plainToken d :: percentTokens (h :: l :: rest ++ c :: y) := percentTokens_cons hd _
        _ = percentTokens (d :: h :: l :: rest) ++ percentTokens (c :: y) := by
          rw [percentTokens_cons hd, ih, List.cons_append]

theorem decodeTokens_append_byte {s : DecoderState} (hs : s.Sound) (xs : List Token) {b : ℕ}
    (hb : b < 0x80) (ys : List Token) :
    decodeTokens s (xs ++ .byte b :: ys) =
      decodeTokens s xs ++ Char.ofNat b :: decodeTokens .ready ys := by
  induction xs generalizing s with
  | nil => simp [decodeTokens, hs.step_ascii hb]
  | cons x xs ih =>
      cases x with
      | byte a => simp [decodeTokens, ih (hs.step a)]
      | char c => simp [decodeTokens, ih DecoderState.sound_ready]

/-- Decoding on the two sides of a separating character is independent. -/
theorem unquote_append {c : Char} (hc : Separates c) (x y : Str) :
    unquote (x ++ c :: y) = unquote x ++ c :: unquote y := by
  have hlt : c.toNat < 0x80 := by simpa [isAscii] using hc.1
  calc
    unquote (x ++ c :: y) =
        decodeTokens .ready (percentTokens x ++ .byte c.toNat :: percentTokens y) := by
      rw [unquote, percentTokens_append hc, percentTokens_cons hc.2.1, hc.plainToken_eq]
    _ = unquote x ++ Char.ofNat c.toNat :: unquote y :=
      decodeTokens_append_byte DecoderState.sound_ready _ hlt _
    _ = unquote x ++ c :: unquote y := by rw [Char.ofNat_toNat]

@[simp] theorem unquote_nil : unquote [] = [] := rfl

/-! ## Spellings -/

/-- `e` writes the bytes `bs`, each as a percent triplet. -/
inductive Triplets : Str → List ℕ → Prop where
  | nil : Triplets [] []
  | cons {h l : Char} {b : ℕ} {e : Str} {bs : List ℕ} (hb : hexByte h l = some b)
      (rest : Triplets e bs) : Triplets ('%' :: h :: l :: e) (b :: bs)

/-- `s` writes the text `k` with some of the characters `r` allows left as
they are and every other one percent-encoded. -/
inductive Spells (r : Char → Prop) : Str → Str → Prop where
  | nil : Spells r [] []
  | raw {c : Char} {s k : Str} (hc : r c) (rest : Spells r s k) :
      Spells r (c :: s) (c :: k)
  | encoded {c : Char} {e s k : Str} (he : Triplets e (utf8Bytes c))
      (rest : Spells r s k) : Spells r (e ++ s) (c :: k)

theorem Triplets.percentTokens_append {e : Str} {bs : List ℕ} (he : Triplets e bs) (s : Str) :
    percentTokens (e ++ s) = bs.map .byte ++ percentTokens s := by
  induction he with
  | nil => rfl
  | cons hb _ ih =>
      simp only [List.cons_append, List.map_cons, percentTokens_triplet hb, ih]

theorem decodeTokens_bytes_append (s : DecoderState) (bs : List ℕ) (ts : List Token) :
    decodeTokens s (bs.map .byte ++ ts) = (s.feed bs).1 ++ decodeTokens (s.feed bs).2 ts := by
  induction bs generalizing s with
  | nil => rfl
  | cons b bs ih => simp [decodeTokens, DecoderState.feed, ih]

theorem unquote_cons {c : Char} (hc : c ≠ '%') (s : Str) : unquote (c :: s) = c :: unquote s := by
  rw [unquote, percentTokens_cons hc, plainToken]
  split_ifs with hascii
  · have hlt : c.toNat < 0x80 := by simpa [isAscii] using hascii
    simp [decodeTokens, DecoderState.step, DecoderState.first, hlt, unquote]
  · rfl

theorem Triplets.unquote_append {e : Str} {c : Char} (he : Triplets e (utf8Bytes c)) (s : Str) :
    unquote (e ++ s) = c :: unquote s := by
  rw [unquote, he.percentTokens_append, decodeTokens_bytes_append,
    DecoderState.feed_utf8Bytes]
  rfl

/-- Whatever way a text is spelled, decoding gives it back. -/
theorem Spells.unquote_eq {raw : Char → Prop} (hraw : ∀ c, raw c → c ≠ '%') {s k : Str}
    (h : Spells raw s k) : unquote s = k := by
  induction h with
  | nil => rfl
  | raw hc _ ih => rw [unquote_cons (hraw _ hc), ih]
  | encoded he _ ih => rw [he.unquote_append, ih]

theorem Spells.append {raw : Char → Prop} {s k t l : Str} (hs : Spells raw s k)
    (ht : Spells raw t l) : Spells raw (s ++ t) (k ++ l) := by
  induction hs with
  | nil => exact ht
  | raw hc _ ih => exact .raw hc ih
  | encoded he _ ih =>
      rw [List.append_assoc]
      exact .encoded he ih

theorem Spells.mono {raw raw' : Char → Prop} (hle : ∀ c, raw c → raw' c) {s k : Str}
    (h : Spells raw s k) : Spells raw' s k := by
  induction h with
  | nil => exact .nil
  | raw hc _ ih => exact .raw (hle _ hc) ih
  | encoded he _ ih => exact .encoded he ih

theorem Spells.refl {raw : Char → Prop} {s : Str} (hs : ∀ c ∈ s, raw c) : Spells raw s s := by
  induction s with
  | nil => exact .nil
  | cons c s ih => exact .raw (hs c (by simp)) (ih fun d hd ↦ hs d (List.mem_cons_of_mem c hd))

theorem hexDigit_isAscii {c : Char} {n : ℕ} (h : hexDigit c = some n) : isAscii c = true := by
  unfold hexDigit at h
  simp only [isAscii, decide_eq_true_eq]
  simp only at h
  split_ifs at h <;> omega

theorem Triplets.mem {e : Str} {bs : List ℕ} (he : Triplets e bs) {c : Char} (hc : c ∈ e) :
    c = '%' ∨ ∃ n, hexDigit c = some n := by
  induction he with
  | nil => simp at hc
  | @cons h l b e bs hb _ ih =>
      have hdigits : (∃ n, hexDigit h = some n) ∧ ∃ n, hexDigit l = some n := by
        cases hh : hexDigit h <;> cases hl : hexDigit l <;> simp_all [hexByte]
      simp only [List.mem_cons] at hc
      rcases hc with rfl | rfl | rfl | hc
      · exact Or.inl rfl
      · exact Or.inr hdigits.1
      · exact Or.inr hdigits.2
      · exact ih hc

theorem Spells.mem {raw : Char → Prop} {s k : Str} (h : Spells raw s k) {c : Char}
    (hc : c ∈ s) : raw c ∨ c = '%' ∨ ∃ n, hexDigit c = some n := by
  induction h with
  | nil => simp at hc
  | raw hd _ ih =>
      rcases List.mem_cons.mp hc with rfl | hc
      · exact Or.inl hd
      · exact ih hc
  | encoded he _ ih =>
      rcases List.mem_append.mp hc with hc | hc
      · exact Or.inr (he.mem hc)
      · exact ih hc

theorem Triplets.length_eq {e : Str} {bs : List ℕ} (he : Triplets e bs) :
    e.length = 3 * bs.length := by
  induction he with
  | nil => rfl
  | cons _ _ ih =>
      simp only [List.length_cons, ih]
      omega

theorem length_utf8Bytes_pos (c : Char) : 0 < (utf8Bytes c).length := by
  unfold utf8Bytes
  simp only
  split_ifs <;> simp

theorem Spells.length_le {raw : Char → Prop} {s k : Str} (h : Spells raw s k) :
    k.length ≤ s.length := by
  induction h with
  | nil => simp
  | raw _ _ ih => simpa using ih
  | @encoded c e s k he _ ih =>
      have hlen := he.length_eq
      have hpos := length_utf8Bytes_pos c
      simp only [List.length_cons, List.length_append]
      omega

theorem Spells.eq_nil {raw : Char → Prop} {k : Str} (h : Spells raw [] k) : k = [] := by
  simpa using h.length_le

/-- A separating character of a spelling is raw, and cuts the text where it
cuts the spelling. -/
theorem Spells.split {raw : Char → Prop} {x y k : Str} {c : Char} (hc : Separates c)
    (h : Spells raw (x ++ c :: y) k) :
    ∃ k₁ k₂, k = k₁ ++ c :: k₂ ∧ Spells raw x k₁ ∧ Spells raw y k₂ := by
  generalize hs : x ++ c :: y = t at h
  induction h generalizing x with
  | nil => simp at hs
  | @raw d s k hd hrest ih =>
      cases x with
      | nil =>
          obtain ⟨rfl, rfl⟩ := List.cons.inj hs
          exact ⟨[], k, rfl, .nil, hrest⟩
      | cons a x =>
          rw [List.cons_append, List.cons.injEq] at hs
          obtain ⟨rfl, hs⟩ := hs
          obtain ⟨k₁, k₂, rfl, hx, hy⟩ := ih hs
          exact ⟨a :: k₁, k₂, rfl, .raw hd hx, hy⟩
  | @encoded d e s k he hrest ih =>
      rcases List.append_eq_append_iff.mp hs with ⟨m, hm, hcy⟩ | ⟨m, hm, hcy⟩
      · cases m with
        | nil =>
            have hxe : e = x := by simpa using hm
            obtain ⟨k₁, k₂, rfl, hx, hy⟩ := ih (x := []) hcy
            obtain rfl := hx.eq_nil
            exact ⟨[d], k₂, rfl, by simpa [hxe] using Spells.encoded (r := raw) he .nil, hy⟩
        | cons a m =>
            -- a separating character is no part of a triplet
            obtain ⟨rfl, _⟩ := List.cons.inj hcy
            rcases he.mem (c := c) (by simp [hm]) with hpct | ⟨n, hn⟩
            · exact absurd hpct hc.2.1
            · simp [hc.2.2] at hn
      · obtain ⟨k₁, k₂, rfl, hx, hy⟩ := ih hcy.symm
        exact ⟨d :: k₁, k₂, rfl, hm ▸ .encoded he hx, hy⟩

/-! ## The canonical spelling -/

/-- The characters `urllib.parse.quote` leaves alone by default. -/
def isQuoteSafe (c : Char) : Bool :=
  c.isAlphanum || c == '_' || c == '.' || c == '-' || c == '~' || c == '/'

def upperHex (n : ℕ) : Char := Char.ofNat (if n < 10 then 0x30 + n else 0x37 + n)

def quoteByte (b : ℕ) : Str := ['%', upperHex (b / 16), upperHex (b % 16)]

def quote (s : Str) : Str :=
  s.flatMap fun c ↦ if isQuoteSafe c then [c] else (utf8Bytes c).flatMap quoteByte

theorem upperHex_spec {n : ℕ} (hn : n < 16) : hexDigit (upperHex n) = some n := by
  interval_cases n <;> decide

theorem hexByte_upperHex {b : ℕ} (hb : b < 256) :
    hexByte (upperHex (b / 16)) (upperHex (b % 16)) = some b := by
  have hhi := upperHex_spec (n := b / 16) (by omega)
  have hlo := upperHex_spec (n := b % 16) (by omega)
  simp only [hexByte, hhi, hlo, Option.some.injEq]
  omega

theorem triplets_quoteBytes {bs : List ℕ} (hbs : ∀ b ∈ bs, b < 256) :
    Triplets (bs.flatMap quoteByte) bs := by
  induction bs with
  | nil => exact .nil
  | cons b bs ih =>
      exact .cons (hexByte_upperHex (hbs b (by simp)))
        (ih fun d hd ↦ hbs d (List.mem_cons_of_mem b hd))

theorem utf8Bytes_lt (c : Char) : ∀ b ∈ utf8Bytes c, b < 256 := by
  have hvalid : c.toNat < 0xD800 ∨ 0xDFFF < c.toNat ∧ c.toNat < 0x110000 := c.valid
  intro b hb
  unfold utf8Bytes at hb
  simp only at hb
  split_ifs at hb <;> simp only [List.mem_cons, List.not_mem_nil, or_false] at hb <;> omega

theorem isQuoteSafe_ne_percent {c : Char} (hc : isQuoteSafe c = true) : c ≠ '%' := by
  rintro rfl
  exact absurd hc (by decide)

theorem spells_quote (s : Str) : Spells (isQuoteSafe · = true) (quote s) s := by
  induction s with
  | nil => exact .nil
  | cons c s ih =>
      by_cases hc : isQuoteSafe c = true
      · simpa [quote, hc] using Spells.raw (r := (isQuoteSafe · = true)) hc ih
      · simpa [quote, hc] using Spells.encoded (r := (isQuoteSafe · = true))
          (triplets_quoteBytes (utf8Bytes_lt c)) ih

theorem unquote_quote (s : Str) : unquote (quote s) = s :=
  (spells_quote s).unquote_eq fun _ ↦ isQuoteSafe_ne_percent

end StorageReconciler.PercentCoding
