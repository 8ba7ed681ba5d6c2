import StorageReconciler.Foundations.JsonEscape
import StorageReconciler.Foundations.OrderedDict
import StorageReconciler.Foundations.PercentCoding

/-!
# JSON documents

A document is written in printable ASCII, with blanks where a layout puts them.
A reader that skips blanks, and that keeps the last value of a repeated key, gets
back what was written.
-/

namespace StorageReconciler

open Strings JsonEscape

/-! ## Values -/

namespace Json

def isNumeralChar (c : Char) : Bool :=
  c.isDigit || c == '-' || c == '+' || c == '.' || c == 'e' || c == 'E'

/-- One digit or more. -/
def isDigits (s : Str) : Bool := !s.isEmpty && s.all Char.isDigit

/-- `([eE][-+]?[0-9]+)?` -/
def isExponent : Str → Bool
  | [] => true
  | e :: '-' :: s => (e == 'e' || e == 'E') && isDigits s
  | e :: '+' :: s => (e == 'e' || e == 'E') && isDigits s
  | e :: s => (e == 'e' || e == 'E') && isDigits s

/-- `(\.[0-9]+)?([eE][-+]?[0-9]+)?` -/
def isFraction : Str → Bool
  | '.' :: s => isDigits (s.takeWhile Char.isDigit) && isExponent (s.dropWhile Char.isDigit)
  | s => isExponent s

/-- `(?:0|[1-9][0-9]*)(\.[0-9]+)?([eE][-+]?[0-9]+)?` -/
def isUnsigned : Str → Bool
  | '0' :: s => isFraction s
  | c :: s => c.isDigit && isFraction (s.dropWhile Char.isDigit)
  | [] => false

def isNumeral (s : Str) : Bool :=
  s.all isNumeralChar &&
    match s with
    | '-' :: t => isUnsigned t
    | t => isUnsigned t

/-- A number, by the text that stands for it. -/
structure Numeral where
  text : Str
  valid : isNumeral text = true
  deriving DecidableEq

end Json

inductive Json where
  | null
  | bool (b : Bool)
  | num (n : Json.Numeral)
  | str (s : Str)
  | arr (elements : List Json)
  | obj (members : List (Str × Json))

namespace Json

/-- What `d.get(name)` finds. -/
def get? (v : Json) (name : Str) : Option Json :=
  match v with
  | obj members => (members.find? fun e ↦ decide (e.1 = name)).map Prod.snd
  | _ => none

/-! ## Writing -/

def hex4 (n : ℕ) : Str :=
  [hexLetter (n / 4096 % 16), hexLetter (n / 256 % 16), hexLetter (n / 16 % 16),
    hexLetter (n % 16)]

def unicodeEscape (n : ℕ) : Str := '\\' :: 'u' :: hex4 n

/-- A character with `ensure_ascii`: beyond the basic plane as a surrogate pair. -/
def escapeAscii (c : Char) : Str :=
  if isEscaped c then '\\' :: escapeTail c
  else if c.toNat < 0x7F then [c]
  else if c.toNat < 0x10000 then unicodeEscape c.toNat
  else unicodeEscape (0xD800 + (c.toNat - 0x10000) / 0x400) ++
    unicodeEscape (0xDC00 + (c.toNat - 0x10000) % 0x400)

def writeString (s : Str) : Str := '"' :: (s.flatMap escapeAscii ++ ['"'])

/-- The characters that `json.loads` skips between tokens. -/
def isBlank (c : Char) : Bool := c == ' ' || c == '\t' || c == '\n' || c == '\r'

/-- The blanks after an opening bracket, after a comma and before a closing bracket, by
the depth of the bracket. -/
structure Layout where
  opening : ℕ → Str
  next : ℕ → Str
  closing : ℕ → Str
  blank : ∀ d, ∀ c ∈ opening d ++ next d ++ closing d, isBlank c = true

/-- `json.dumps(v)` -/
def Layout.plain : Layout where
  opening _ := []
  next _ := [' ']
  closing _ := []
  blank := by simp [isBlank]

/-- A new line that is indented by two blanks for each level. -/
def newLine (d : ℕ) : Str := '\n' :: List.replicate (2 * d) ' '

/-- `json.dumps(v, indent=2)` -/
def Layout.indented : Layout where
  opening d := newLine (d + 1)
  next d := newLine (d + 1)
  closing d := newLine d
  blank := by
    intro d c hc
    simp only [newLine, List.mem_append, List.mem_cons, List.mem_replicate] at hc
    rcases hc with ((rfl | ⟨_, rfl⟩) | (rfl | ⟨_, rfl⟩)) | (rfl | ⟨_, rfl⟩) <;> rfl

mutual

def write (L : Layout) (d : ℕ) : Json → Str
  | null => "null".toList
  | bool true => "true".toList
  | bool false => "false".toList
  | num n => n.text
  | str s => writeString s
  | arr [] => "[]".toList
  | arr (v :: vs) => '[' :: (L.opening d ++ (write L (d + 1) v ++ writeElements L d vs))
  | obj [] => ['{', '}']
  | obj ((k, v) :: members) =>
      '{' :: (L.opening d ++ (writeString k ++ ':' :: ' ' ::
        (write L (d + 1) v ++ writeMembers L d members)))

/-- The elements after the first one, and the end of the list. -/
def writeElements (L : Layout) (d : ℕ) : List Json → Str
  | [] => L.closing d ++ [']']
  | v :: vs => ',' :: (L.next d ++ (write L (d + 1) v ++ writeElements L d vs))

/-- The members after the first one, and the end of the object. -/
def writeMembers (L : Layout) (d : ℕ) : List (Str × Json) → Str
  | [] => L.closing d ++ ['}']
  | (k, v) :: members =>
      ',' :: (L.next d ++ (writeString k ++ ':' :: ' ' ::
        (write L (d + 1) v ++ writeMembers L d members)))

end

def dumps (v : Json) : Str := write .plain 0 v

def dumpsIndented (v : Json) : Str := write .indented 0 v

/-! ## Reading -/

def skipBlanks (s : Str) : Str := s.dropWhile isBlank

def readHex4 : Str → Option (ℕ × Str)
  | a :: b :: c :: d :: rest =>
      match PercentCoding.hexByte a b, PercentCoding.hexByte c d with
      | some high, some low => some (high * 256 + low, rest)
      | _, _ => none
  | _ => none

/-- What a backslash and another character than `u` stand for. -/
def unescapeChar (c : Char) : Option Char :=
  if c = '"' ∨ c = '\\' ∨ c = '/' then some c
  else if c = 'b' then some (Char.ofNat 8)
  else if c = 't' then some (Char.ofNat 9)
  else if c = 'n' then some (Char.ofNat 10)
  else if c = 'f' then some (Char.ofNat 12)
  else if c = 'r' then some (Char.ofNat 13)
  else none

/-- The character after a backslash.  A surrogate without its other half, which is no
character, is refused. -/
def unescape : Str → Option (Char × Str)
  | 'u' :: rest =>
      (readHex4 rest).bind fun (n, rest) ↦
        if 0xD800 ≤ n ∧ n ≤ 0xDBFF then
          match rest with
          | '\\' :: 'u' :: rest =>
              (readHex4 rest).bind fun (m, rest) ↦
                if 0xDC00 ≤ m ∧ m ≤ 0xDFFF then
                  some (Char.ofNat (0x10000 + (n - 0xD800) * 0x400 + (m - 0xDC00)), rest)
                else none
          | _ => none
        else if 0xDC00 ≤ n ∧ n ≤ 0xDFFF then none
        else some (Char.ofNat n, rest)
  | c :: rest => (unescapeChar c).map fun d ↦ (d, rest)
  | [] => none

/-- The text up to the closing quote. -/
def readString : ℕ → Str → Option (Str × Str)
  | 0, _ => none
  | _ + 1, [] => none
  | _ + 1, '"' :: rest => some ([], rest)
  | fuel + 1, '\\' :: rest =>
      (unescape rest).bind fun (c, rest) ↦
        (readString fuel rest).map fun (s, rest) ↦ (c :: s, rest)
  | fuel + 1, c :: rest =>
      if c.toNat < 0x20 then none
      else (readString fuel rest).map fun (s, rest) ↦ (c :: s, rest)

def readNumeral (s : Str) : Option (Json × Str) :=
  if h : isNumeral (s.takeWhile isNumeralChar) = true then
    some (num ⟨s.takeWhile isNumeralChar, h⟩, s.dropWhile isNumeralChar)
  else none

/-- The dictionary of some pairs. -/
def dictOf (pairs : List (Str × Json)) : List (Str × Json) :=
  (pairs.foldl (fun d e ↦ d.insert e.1 e.2) OrderedDict.empty).entries

mutual

/-- A value and what follows it.  Every call takes a character, so that the length of a
text is fuel enough. -/
def readValue : ℕ → Str → Option (Json × Str)
  | 0, _ => none
  | _ + 1, 'n' :: 'u' :: 'l' :: 'l' :: rest => some (null, rest)
  | _ + 1, 't' :: 'r' :: 'u' :: 'e' :: rest => some (bool true, rest)
  | _ + 1, 'f' :: 'a' :: 'l' :: 's' :: 'e' :: rest => some (bool false, rest)
  | fuel + 1, '"' :: rest => (readString fuel rest).map fun (s, rest) ↦ (str s, rest)
  | fuel + 1, '[' :: rest =>
      match skipBlanks rest with
      | ']' :: rest => some (arr [], rest)
      | rest => (readElements fuel rest).map fun (vs, rest) ↦ (arr vs, rest)
  | fuel + 1, '{' :: rest =>
      match skipBlanks rest with
      | '}' :: rest => some (obj [], rest)
      | rest => (readMembers fuel rest).map fun (pairs, rest) ↦ (obj (dictOf pairs), rest)
  | _ + 1, s => readNumeral s

/-- The elements of a list that has one, up to its end. -/
def readElements : ℕ → Str → Option (List Json × Str)
  | 0, _ => none
  | fuel + 1, s =>
      (readValue fuel s).bind fun (v, rest) ↦
        match skipBlanks rest with
        | ',' :: rest => (readElements fuel (skipBlanks rest)).map fun (vs, rest) ↦ (v :: vs, rest)
        | ']' :: rest => some ([v], rest)
        | _ => none

/-- The members of an object that has one, up to its end. -/
def readMembers : ℕ → Str → Option (List (Str × Json) × Str)
  | 0, _ => none
  | fuel + 1, '"' :: s =>
      (readString fuel s).bind fun (k, rest) ↦
        match skipBlanks rest with
        | ':' :: rest =>
            (readValue fuel (skipBlanks rest)).bind fun (v, rest) ↦
              match skipBlanks rest with
              | ',' :: rest =>
                  (readMembers fuel (skipBlanks rest)).map fun (pairs, rest) ↦
                    ((k, v) :: pairs, rest)
              | '}' :: rest => some ([(k, v)], rest)
              | _ => none
        | _ => none
  | _ + 1, _ => none

end

/-- `json.loads(s)`, of a document that ends where its value does, blanks aside. -/
def loads (s : Str) : Option Json :=
  match readValue s.length (skipBlanks s) with
  | some (v, rest) => if skipBlanks rest = [] then some v else none
  | none => none

mutual

/-- No key is repeated in an object. -/
def Distinct : Json → Prop
  | arr vs => DistinctElements vs
  | obj members => (members.map Prod.fst).Nodup ∧ DistinctMembers members
  | _ => True

def DistinctElements : List Json → Prop
  | [] => True
  | v :: vs => Distinct v ∧ DistinctElements vs

def DistinctMembers : List (Str × Json) → Prop
  | [] => True
  | (_, v) :: members => Distinct v ∧ DistinctMembers members

end

/-! ## Strings -/

theorem hexDigit_hexLetter {n : ℕ} (hn : n < 16) :
    PercentCoding.hexDigit (hexLetter n) = some n := by
  interval_cases n <;> rfl

theorem readHex4_hex4 {n : ℕ} (hn : n < 0x10000) (rest : Str) :
    readHex4 (hex4 n ++ rest) = some (n, rest) := by
  have hhigh : PercentCoding.hexByte (hexLetter (n / 4096 % 16)) (hexLetter (n / 256 % 16)) =
      some (n / 256) := by
    rw [PercentCoding.hexByte, hexDigit_hexLetter (Nat.mod_lt _ (by omega)),
      hexDigit_hexLetter (Nat.mod_lt _ (by omega))]
    exact congrArg some (by omega)
  have hlow : PercentCoding.hexByte (hexLetter (n / 16 % 16)) (hexLetter (n % 16)) =
      some (n % 256) := by
    rw [PercentCoding.hexByte, hexDigit_hexLetter (Nat.mod_lt _ (by omega)),
      hexDigit_hexLetter (Nat.mod_lt _ (by omega))]
    exact congrArg some (by omega)
  simp only [hex4, List.cons_append, List.nil_append, readHex4, hhigh, hlow]
  rw [Nat.div_add_mod' n 256]

theorem unescape_unicode {c : Char} (hc : c.toNat < 0x10000) (rest : Str) :
    unescape ('u' :: (hex4 c.toNat ++ rest)) = some (c, rest) := by
  have hvalid : c.toNat < 0xD800 ∨ 0xDFFF < c.toNat := by
    rcases c.valid with h | h
    · exact .inl h
    · exact .inr h.1
  rw [unescape, readHex4_hex4 hc, Option.bind_some]
  simp only
  rw [if_neg (by omega), if_neg (by omega), Char.ofNat_toNat]

theorem unescape_pair {c : Char} (hc : 0x10000 ≤ c.toNat) (rest : Str) :
    unescape ('u' :: (hex4 (0xD800 + (c.toNat - 0x10000) / 0x400) ++
      (unicodeEscape (0xDC00 + (c.toNat - 0x10000) % 0x400) ++ rest))) = some (c, rest) := by
  have hmax : c.toNat < 0x110000 := by
    rcases c.valid with h | h
    · exact lt_trans h (by decide)
    · exact h.2
  rw [unescape, readHex4_hex4 (by omega), Option.bind_some]
  simp only [unicodeEscape, List.cons_append]
  rw [if_pos (by omega), readHex4_hex4 (by omega), Option.bind_some]
  simp only
  rw [if_pos (by omega)]
  have hcode : 0x10000 + (0xD800 + (c.toNat - 0x10000) / 0x400 - 0xD800) * 0x400 +
      (0xDC00 + (c.toNat - 0x10000) % 0x400 - 0xDC00) = c.toNat := by omega
  rw [hcode, Char.ofNat_toNat]

theorem eq_ofNat_of_toNat {c : Char} {n : ℕ} (h : c.toNat = n) : c = Char.ofNat n := by
  rw [← h, Char.ofNat_toNat]

theorem unescape_escapeTail {c : Char} (hc : isEscaped c = true) (rest : Str) :
    unescape (escapeTail c ++ rest) = some (c, rest) := by
  unfold escapeTail
  split_ifs with hquote h8 h9 h10 h12 h13
  · rcases hquote with rfl | rfl <;> rfl
  · rw [eq_ofNat_of_toNat h8]
    rfl
  · rw [eq_ofNat_of_toNat h9]
    rfl
  · rw [eq_ofNat_of_toNat h10]
    rfl
  · rw [eq_ofNat_of_toNat h12]
    rfl
  · rw [eq_ofNat_of_toNat h13]
    rfl
  · have hcontrol : c.toNat < 0x20 := by
      simp only [isEscaped, Bool.or_eq_true, beq_iff_eq, decide_eq_true_eq] at hc
      exact hc.resolve_left hquote
    have htail : ['u', '0', '0', hexLetter (c.toNat / 16), hexLetter (c.toNat % 16)] =
        'u' :: hex4 c.toNat := by
      have h3 : c.toNat / 4096 % 16 = 0 := by omega
      have h2 : c.toNat / 256 % 16 = 0 := by omega
      have h1 : c.toNat / 16 % 16 = c.toNat / 16 := by omega
      rw [hex4, h3, h2, h1]
      rfl
    rw [htail, List.cons_append, unescape_unicode (by omega)]

theorem readString_escapeAscii (c : Char) (rest : Str) (fuel : ℕ) :
    readString (fuel + 1) (escapeAscii c ++ rest) =
      (readString fuel rest).map fun (s, rest) ↦ (c :: s, rest) := by
  unfold escapeAscii
  split_ifs with hescaped hascii hbasic
  · rw [List.cons_append, readString, unescape_escapeTail hescaped, Option.bind_some]
  · have hplain : c ≠ '"' ∧ c ≠ '\\' ∧ ¬ c.toNat < 0x20 := by
      simp only [isEscaped, Bool.or_eq_true, beq_iff_eq, decide_eq_true_eq] at hescaped
      tauto
    rw [List.singleton_append, readString, if_neg hplain.2.2]
    · exact hplain.1
    · exact hplain.2.1
  · rw [unicodeEscape, List.cons_append, List.cons_append, readString, unescape_unicode hbasic,
      Option.bind_some]
  · rw [List.append_assoc, unicodeEscape, List.cons_append, List.cons_append, readString,
      unescape_pair (by omega), Option.bind_some]

theorem readString_flatMap (s rest : Str) {fuel : ℕ} (hfuel : s.length < fuel) :
    readString fuel (s.flatMap escapeAscii ++ '"' :: rest) = some (s, rest) := by
  induction s generalizing fuel with
  | nil =>
      obtain ⟨fuel, rfl⟩ := Nat.exists_eq_succ_of_ne_zero (Nat.ne_zero_of_lt hfuel)
      rfl
  | cons c s ih =>
      obtain ⟨fuel, rfl⟩ := Nat.exists_eq_succ_of_ne_zero (Nat.ne_zero_of_lt hfuel)
      rw [List.flatMap_cons, List.append_assoc, readString_escapeAscii,
        ih (Nat.lt_of_succ_lt_succ hfuel), Option.map_some]

theorem escapeAscii_ne_nil (c : Char) : escapeAscii c ≠ [] := by
  unfold escapeAscii unicodeEscape
  split_ifs <;> simp

theorem length_le_flatMap (s : Str) : s.length ≤ (s.flatMap escapeAscii).length := by
  induction s with
  | nil => exact Nat.zero_le _
  | cons c s ih =>
      have hc := List.length_pos_of_ne_nil (escapeAscii_ne_nil c)
      rw [List.flatMap_cons, List.length_append, List.length_cons]
      omega

/-- After the opening quote, the rest of a written string is read. -/
theorem readString_writeString (s rest : Str) (fuel : ℕ)
    (hfuel : (writeString s).length ≤ fuel + 1) :
    ∃ tail, writeString s ++ rest = '"' :: tail ∧ readString fuel tail = some (s, rest) := by
  refine ⟨s.flatMap escapeAscii ++ '"' :: rest, by simp [writeString], ?_⟩
  apply readString_flatMap
  have hlength := length_le_flatMap s
  simp only [writeString, List.length_cons, List.length_append, List.length_nil] at hfuel
  omega

/-! ## Numbers -/

theorem numeralChar_of_mem (n : Numeral) {c : Char} (hc : c ∈ n.text) :
    isNumeralChar c = true := by
  have hvalid := n.valid
  unfold isNumeral at hvalid
  rw [Bool.and_eq_true, List.all_eq_true] at hvalid
  exact hvalid.1 c hc

theorem isUnsigned_cons {s : Str} (h : isUnsigned s = true) :
    ∃ c t, s = c :: t ∧ c.isDigit = true := by
  unfold isUnsigned at h
  split at h
  · exact ⟨_, _, rfl, rfl⟩
  · exact ⟨_, _, rfl, (Bool.and_eq_true_iff.mp h).1⟩
  · exact absurd h Bool.false_ne_true

/-- What a number begins with. -/
theorem Numeral.exists_cons (n : Numeral) :
    ∃ c t, n.text = c :: t ∧ (c = '-' ∨ c.isDigit = true) := by
  have hvalid := n.valid
  unfold isNumeral at hvalid
  rw [Bool.and_eq_true] at hvalid
  have hshape := hvalid.2
  split at hshape
  · exact ⟨_, _, ‹_›, .inl rfl⟩
  · obtain ⟨c, t, htext, hdigit⟩ := isUnsigned_cons hshape
    exact ⟨c, t, htext, .inr hdigit⟩

theorem readNumeral_append (n : Numeral) {rest : Str}
    (hrest : ∀ c, rest.head? = some c → isNumeralChar c = false) :
    readNumeral (n.text ++ rest) = some (num n, rest) := by
  have hdrop : rest.dropWhile isNumeralChar = rest := by
    cases rest with
    | nil => rfl
    | cons c rest => exact List.dropWhile_cons_of_neg (by simp [hrest c rfl])
  have htake : rest.takeWhile isNumeralChar = [] := by
    cases rest with
    | nil => rfl
    | cons c rest => exact List.takeWhile_cons_of_neg (by simp [hrest c rfl])
  have hall : ∀ c ∈ n.text, isNumeralChar c = true := fun _ ↦ numeralChar_of_mem n
  have htext : (n.text ++ rest).takeWhile isNumeralChar = n.text := by
    rw [List.takeWhile_append_of_pos hall, htake, List.append_nil]
  have hafter : (n.text ++ rest).dropWhile isNumeralChar = rest := by
    rw [List.dropWhile_append_of_pos hall, hdrop]
  simp only [readNumeral, htext, hafter, n.valid, dif_pos]

theorem readValue_of_numeral {c : Char} (hc : c = '-' ∨ c.isDigit = true) (s : Str) (fuel : ℕ) :
    readValue (fuel + 1) (c :: s) = readNumeral (c :: s) := by
  have hne : ∀ d, d.isDigit = false → d ≠ '-' → c ≠ d := by
    rintro d hdigit hminus rfl
    rcases hc with hc | hc
    · exact hminus hc
    · exact Bool.false_ne_true (hdigit.symm.trans hc)
  have hn := hne 'n' rfl (by decide)
  have ht := hne 't' rfl (by decide)
  have hf := hne 'f' rfl (by decide)
  have hquote := hne '"' rfl (by decide)
  have hbracket := hne '[' rfl (by decide)
  have hbrace := hne '{' rfl (by decide)
  unfold readValue
  split <;> first | rfl | simp_all

/-! ## Values read back -/

theorem skipBlanks_append {blanks : Str} (hblanks : ∀ c ∈ blanks, isBlank c = true) {c : Char}
    (hc : isBlank c = false) (rest : Str) : skipBlanks (blanks ++ c :: rest) = c :: rest := by
  rw [skipBlanks, List.dropWhile_append_of_pos hblanks]
  exact List.dropWhile_cons_of_neg (by simp [hc])

theorem skipBlanks_cons {c : Char} (hc : isBlank c = false) (rest : Str) :
    skipBlanks (c :: rest) = c :: rest :=
  @skipBlanks_append [] (by simp) c hc rest

theorem isBlank_of_isDigit {c : Char} (hc : c = '-' ∨ c.isDigit = true) :
    isBlank c = false ∧ c ≠ ']' ∧ c ≠ '}' := by
  have hne : ∀ d, d.isDigit = false → d ≠ '-' → c ≠ d := by
    rintro d hdigit hminus rfl
    rcases hc with hc | hc
    · exact hminus hc
    · exact Bool.false_ne_true (hdigit.symm.trans hc)
  have hspace := hne ' ' rfl (by decide)
  have htab := hne '\t' rfl (by decide)
  have hnewline := hne '\n' rfl (by decide)
  have hreturn := hne '\r' rfl (by decide)
  exact ⟨by simp [isBlank, hspace, htab, hnewline, hreturn], hne ']' rfl (by decide),
    hne '}' rfl (by decide)⟩

/-- What a written value begins with. -/
theorem write_head (L : Layout) (d : ℕ) (v : Json) :
    ∃ c s, write L d v = c :: s ∧ isBlank c = false ∧ c ≠ ']' ∧ c ≠ '}' := by
  cases v with
  | null => exact ⟨'n', _, by rw [write]; rfl, rfl, by decide, by decide⟩
  | bool b =>
      cases b with
      | true => exact ⟨'t', _, by rw [write]; rfl, rfl, by decide, by decide⟩
      | false => exact ⟨'f', _, by rw [write]; rfl, rfl, by decide, by decide⟩
  | num n =>
      obtain ⟨c, t, htext, hc⟩ := n.exists_cons
      exact ⟨c, t, by rw [write, htext], isBlank_of_isDigit hc⟩
  | str s => exact ⟨'"', _, by rw [write]; rfl, rfl, by decide, by decide⟩
  | arr vs =>
      cases vs with
      | nil => exact ⟨'[', _, by rw [write]; rfl, rfl, by decide, by decide⟩
      | cons v vs => exact ⟨'[', _, by rw [write], rfl, by decide, by decide⟩
  | obj members =>
      cases members with
      | nil => exact ⟨'{', _, by rw [write], rfl, by decide, by decide⟩
      | cons e members => exact ⟨'{', _, by rw [write], rfl, by decide, by decide⟩

theorem Layout.blank_opening (L : Layout) (d : ℕ) : ∀ c ∈ L.opening d, isBlank c = true :=
  fun c hc ↦ L.blank d c (by simp [hc])

theorem Layout.blank_next (L : Layout) (d : ℕ) : ∀ c ∈ L.next d, isBlank c = true :=
  fun c hc ↦ L.blank d c (by simp [hc])

theorem Layout.blank_closing (L : Layout) (d : ℕ) : ∀ c ∈ L.closing d, isBlank c = true :=
  fun c hc ↦ L.blank d c (by simp [hc])

theorem skipBlanks_write {blanks : Str} (hblanks : ∀ c ∈ blanks, isBlank c = true) (L : Layout)
    (d : ℕ) (v : Json) (rest : Str) :
    skipBlanks (blanks ++ (write L d v ++ rest)) = write L d v ++ rest := by
  obtain ⟨c, s, hwrite, hc, _⟩ := write_head L d v
  rw [hwrite, List.cons_append, skipBlanks_append hblanks hc]

/-- The text that follows a value in a document does not go on with a number. -/
def Ends (rest : Str) : Prop := ∀ c, rest.head? = some c → isNumeralChar c = false

theorem isNumeralChar_of_isBlank {c : Char} (hc : isBlank c = true) : isNumeralChar c = false := by
  simp only [isBlank, Bool.or_eq_true, beq_iff_eq] at hc
  rcases hc with ((rfl | rfl) | rfl) | rfl <;> rfl

theorem ends_append {blanks : Str} (hblanks : ∀ c ∈ blanks, isBlank c = true) {c : Char}
    (hc : isNumeralChar c = false) (rest : Str) : Ends (blanks ++ c :: rest) := by
  intro e he
  cases blanks with
  | nil =>
      obtain rfl := Option.some.inj he
      exact hc
  | cons b blanks =>
      obtain rfl := Option.some.inj he
      exact isNumeralChar_of_isBlank (hblanks _ List.mem_cons_self)

theorem ends_writeElements (L : Layout) (d : ℕ) (vs : List Json) (rest : Str) :
    Ends (writeElements L d vs ++ rest) := by
  cases vs with
  | nil =>
      rw [writeElements, List.append_assoc]
      exact ends_append (L.blank_closing d) rfl rest
  | cons v vs =>
      rw [writeElements]
      exact @ends_append [] (by simp) ',' rfl _

theorem ends_writeMembers (L : Layout) (d : ℕ) (members : List (Str × Json)) (rest : Str) :
    Ends (writeMembers L d members ++ rest) := by
  cases members with
  | nil =>
      rw [writeMembers, List.append_assoc]
      exact ends_append (L.blank_closing d) rfl rest
  | cons e members =>
      rw [writeMembers]
      exact @ends_append [] (by simp) ',' rfl _

theorem foldl_insert_entries (pairs : List (Str × Json)) (d : OrderedDict Str Json)
    (hnodup : (d.entries.map Prod.fst ++ pairs.map Prod.fst).Nodup) :
    (pairs.foldl (fun d e ↦ d.insert e.1 e.2) d).entries = d.entries ++ pairs := by
  induction pairs generalizing d with
  | nil => rw [List.foldl_nil, List.append_nil]
  | cons e pairs ih =>
      have hnew : d.get? e.1 = none := by
        apply OrderedDict.get?_eq_none_iff.mpr
        intro hmem
        exact (List.nodup_append.mp hnodup).2.2 e.1 hmem e.1 (by simp) rfl
      have hentries : (d.insert e.1 e.2).entries = d.entries ++ [e] := by
        simp [OrderedDict.insert, OrderedDict.setdefault, hnew]
      have hrest : ((d.insert e.1 e.2).entries.map Prod.fst ++ pairs.map Prod.fst).Nodup := by
        rw [hentries, List.map_append, List.append_assoc]
        exact hnodup
      calc
        ((e :: pairs).foldl (fun d e ↦ d.insert e.1 e.2) d).entries =
            (d.insert e.1 e.2).entries ++ pairs := ih _ hrest
        _ = (d.entries ++ [e]) ++ pairs := by rw [hentries]
        _ = d.entries ++ e :: pairs := by rw [List.append_assoc, List.singleton_append]

theorem dictOf_of_nodup {pairs : List (Str × Json)} (h : (pairs.map Prod.fst).Nodup) :
    dictOf pairs = pairs :=
  foldl_insert_entries pairs .empty h

theorem readValue_bracket {fuel : ℕ} {s : Str} {c : Char} {t : Str} (hs : skipBlanks s = c :: t)
    (hc : c ≠ ']') {vs : List Json} {rest : Str}
    (hread : readElements fuel (c :: t) = some (vs, rest)) :
    readValue (fuel + 1) ('[' :: s) = some (arr vs, rest) := by
  rw [readValue, hs]
  split
  · rename_i heq
    exact absurd (List.cons.inj heq).1 hc
  · rw [hread, Option.map_some]

theorem readValue_brace {fuel : ℕ} {s : Str} {t : Str} (hs : skipBlanks s = '"' :: t)
    {pairs : List (Str × Json)} {rest : Str}
    (hread : readMembers fuel ('"' :: t) = some (pairs, rest)) :
    readValue (fuel + 1) ('{' :: s) = some (obj (dictOf pairs), rest) := by
  rw [readValue, hs]
  split
  · rename_i heq
    exact absurd (List.cons.inj heq).1 (by decide)
  · rw [hread, Option.map_some]

mutual

/-- A written value is read back, whatever follows it. -/
theorem readValue_write (L : Layout) (d : ℕ) (v : Json) (hv : v.Distinct) (rest : Str)
    (hrest : Ends rest) (fuel : ℕ) (hfuel : (write L d v).length ≤ fuel) :
    readValue fuel (write L d v ++ rest) = some (v, rest) := by
  obtain ⟨c, s, hwrite, _⟩ := write_head L d v
  obtain ⟨fuel, rfl⟩ : ∃ n, fuel = n + 1 := by
    apply Nat.exists_eq_succ_of_ne_zero
    rw [hwrite, List.length_cons] at hfuel
    omega
  match v with
  | .null => rw [write]; rfl
  | .bool true => rw [write]; rfl
  | .bool false => rw [write]; rfl
  | .num n =>
      obtain ⟨c, t, htext, hc⟩ := n.exists_cons
      have hnumeral : write L d (.num n) ++ rest = c :: (t ++ rest) := by
        rw [write, htext, List.cons_append]
      calc
        readValue _ (write L d (.num n) ++ rest) = readNumeral (c :: (t ++ rest)) := by
          rw [hnumeral, readValue_of_numeral hc]
        _ = some (.num n, rest) := by
          rw [← List.cons_append, ← htext, readNumeral_append n hrest]
  | .str s =>
      rw [write] at hfuel ⊢
      obtain ⟨tail, htail, hread⟩ := readString_writeString s rest _ hfuel
      rw [htail, readValue, hread, Option.map_some]
  | .arr [] => rw [write]; rfl
  | .arr (v :: vs) =>
      rw [Distinct, DistinctElements] at hv
      rw [write] at hfuel ⊢
      simp only [List.length_cons, List.length_append] at hfuel
      obtain ⟨c, t, hhead, hblank, hbracket, _⟩ := write_head L (d + 1) v
      have hread := readElements_write L d v vs hv.1 hv.2 rest fuel (by
        rw [List.length_append]
        omega)
      simp only [List.cons_append, List.append_assoc] at hread ⊢
      rw [hhead, List.cons_append] at hread
      refine readValue_bracket ?_ hbracket hread
      rw [skipBlanks_write (L.blank_opening d), hhead, List.cons_append]
  | .obj [] => rw [write]; rfl
  | .obj ((k, v) :: members) =>
      rw [Distinct, DistinctMembers] at hv
      rw [write] at hfuel ⊢
      simp only [List.length_cons, List.length_append] at hfuel
      have hread := readMembers_write L d k v members hv.2.1 hv.2.2 rest fuel (by
        simp only [List.length_append, List.length_cons]
        omega)
      simp only [List.cons_append, List.append_assoc, writeString] at hread ⊢
      rw [readValue_brace (skipBlanks_append (L.blank_opening d) rfl _) hread,
        dictOf_of_nodup hv.1]
termination_by fuel

theorem readElements_write (L : Layout) (d : ℕ) (v : Json) (vs : List Json) (hv : v.Distinct)
    (hvs : DistinctElements vs) (rest : Str) (fuel : ℕ)
    (hfuel : (write L (d + 1) v ++ writeElements L d vs).length ≤ fuel) :
    readElements fuel (write L (d + 1) v ++ writeElements L d vs ++ rest) =
      some (v :: vs, rest) := by
  rw [List.length_append] at hfuel
  obtain ⟨c, s, hwrite, _⟩ := write_head L (d + 1) v
  obtain ⟨fuel, rfl⟩ : ∃ n, fuel = n + 1 := by
    apply Nat.exists_eq_succ_of_ne_zero
    rw [hwrite, List.length_cons] at hfuel
    omega
  have hvalue := readValue_write L (d + 1) v hv _ (ends_writeElements L d vs rest)
    fuel (by
      have hpos : 0 < (writeElements L d vs).length := by
        cases vs <;> rw [writeElements] <;> simp
      omega)
  rw [List.append_assoc, readElements, hvalue, Option.bind_some]
  match vs with
  | [] =>
      rw [writeElements, List.append_assoc, List.singleton_append]
      simp only [skipBlanks_append (L.blank_closing d) (rfl : isBlank ']' = false)]
  | w :: ws =>
      rw [DistinctElements] at hvs
      rw [writeElements] at hfuel ⊢
      simp only [List.length_cons, List.length_append] at hfuel
      have hread := readElements_write L d w ws hvs.1 hvs.2 rest fuel (by
        rw [List.length_append]
        omega)
      simp only [List.cons_append, List.append_assoc] at hread ⊢
      simp only [skipBlanks_cons (rfl : isBlank ',' = false),
        skipBlanks_write (L.blank_next d), hread, Option.map_some]
termination_by fuel

theorem readMembers_write (L : Layout) (d : ℕ) (k : Str) (v : Json)
    (members : List (Str × Json)) (hv : v.Distinct) (hmembers : DistinctMembers members)
    (rest : Str) (fuel : ℕ)
    (hfuel : (writeString k ++ ':' :: ' ' ::
      (write L (d + 1) v ++ writeMembers L d members)).length ≤ fuel) :
    readMembers fuel (writeString k ++ ':' :: ' ' ::
      (write L (d + 1) v ++ (writeMembers L d members ++ rest))) =
        some ((k, v) :: members, rest) := by
  simp only [List.length_append, List.length_cons] at hfuel
  obtain ⟨fuel, rfl⟩ : ∃ n, fuel = n + 1 := ⟨fuel - 1, by omega⟩
  obtain ⟨tail, htail, hkey⟩ := readString_writeString k (':' :: ' ' ::
    (write L (d + 1) v ++ (writeMembers L d members ++ rest))) fuel (by omega)
  have hvalue := readValue_write L (d + 1) v hv _ (ends_writeMembers L d members rest)
    fuel (by omega)
  have hblank : ∀ c ∈ [' '], isBlank c = true := by simp [isBlank]
  have hskip := skipBlanks_write hblank L (d + 1) v (writeMembers L d members ++ rest)
  rw [List.singleton_append] at hskip
  rw [htail, readMembers, hkey, Option.bind_some]
  simp only [skipBlanks_cons (rfl : isBlank ':' = false), hskip, hvalue, Option.bind_some]
  match members with
  | [] =>
      rw [writeMembers, List.append_assoc, List.singleton_append]
      simp only [skipBlanks_append (L.blank_closing d) (rfl : isBlank '}' = false)]
  | (l, w) :: members =>
      rw [DistinctMembers] at hmembers
      rw [writeMembers] at hfuel ⊢
      simp only [List.length_cons, List.length_append] at hfuel
      have hread := readMembers_write L d l w members hmembers.1 hmembers.2 rest fuel (by
        simp only [List.length_append, List.length_cons]
        omega)
      simp only [List.cons_append, List.append_assoc]
      have hquote : skipBlanks (L.next d ++ (writeString l ++ ':' :: ' ' ::
          (write L (d + 1) w ++ (writeMembers L d members ++ rest)))) =
          writeString l ++ ':' :: ' ' ::
            (write L (d + 1) w ++ (writeMembers L d members ++ rest)) :=
        skipBlanks_append (L.blank_next d) rfl _
      simp only [skipBlanks_cons (rfl : isBlank ',' = false), hquote, hread, Option.map_some]
termination_by fuel

end

/-- A document is read as the value it was written for. -/
theorem loads_write (L : Layout) {v : Json} (hv : v.Distinct) : loads (write L 0 v) = some v := by
  obtain ⟨c, s, hwrite, hc, _⟩ := write_head L 0 v
  have hskip : skipBlanks (write L 0 v) = write L 0 v ++ [] := by
    rw [hwrite, skipBlanks_cons hc, List.append_nil]
  have hread := readValue_write L 0 v hv [] (fun c hc ↦ nomatch hc) _ le_rfl
  simp only [loads, hskip, hread]
  rfl

theorem loads_dumps {v : Json} (hv : v.Distinct) : loads (dumps v) = some v :=
  loads_write .plain hv

/-! ## Characters of a document -/

/-- From the blank to the tilde. -/
def isPrintable (c : Char) : Bool := decide (0x20 ≤ c.toNat) && decide (c.toNat < 0x7F)

theorem isPrintable_hexLetter (n : ℕ) (hn : n < 16) : isPrintable (hexLetter n) = true := by
  interval_cases n <;> rfl

theorem isPrintable_hex4 (n : ℕ) : ∀ c ∈ hex4 n, isPrintable c = true := by
  intro c hc
  simp only [hex4, List.mem_cons, List.not_mem_nil, or_false] at hc
  rcases hc with rfl | rfl | rfl | rfl <;>
    exact isPrintable_hexLetter _ (Nat.mod_lt _ (by omega))

theorem isPrintable_unicodeEscape (n : ℕ) : ∀ c ∈ unicodeEscape n, isPrintable c = true := by
  intro c hc
  rcases List.mem_cons.mp hc with rfl | hc
  · rfl
  · rcases List.mem_cons.mp hc with rfl | hc
    · rfl
    · exact isPrintable_hex4 n c hc

theorem isPrintable_escapeTail {c : Char} (hc : isEscaped c = true) :
    ∀ d ∈ escapeTail c, isPrintable d = true :=
  forall_escaped (P := fun c ↦ ∀ d ∈ escapeTail c, isPrintable d = true) (by decide) hc

theorem isPrintable_escapeAscii (c : Char) : ∀ d ∈ escapeAscii c, isPrintable d = true := by
  intro d hd
  unfold escapeAscii at hd
  split_ifs at hd with hescaped hascii hbasic
  · rcases List.mem_cons.mp hd with rfl | hd
    · rfl
    · exact isPrintable_escapeTail hescaped d hd
  · obtain rfl := List.mem_singleton.mp hd
    simp only [isEscaped, Bool.or_eq_true, decide_eq_true_eq, not_or] at hescaped
    simp only [isPrintable, Bool.and_eq_true, decide_eq_true_eq]
    omega
  · exact isPrintable_unicodeEscape _ d hd
  · rcases List.mem_append.mp hd with hd | hd
    · exact isPrintable_unicodeEscape _ d hd
    · exact isPrintable_unicodeEscape _ d hd

theorem isPrintable_writeString (s : Str) : ∀ c ∈ writeString s, isPrintable c = true := by
  intro c hc
  simp only [writeString, List.mem_cons, List.mem_append, List.not_mem_nil, or_false,
    List.mem_flatMap] at hc
  rcases hc with rfl | ⟨d, _, hc⟩ | rfl
  · rfl
  · exact isPrintable_escapeAscii d c hc
  · rfl

theorem isPrintable_of_isNumeralChar {c : Char} (hc : isNumeralChar c = true) :
    isPrintable c = true := by
  simp only [isNumeralChar, Bool.or_eq_true, beq_iff_eq] at hc
  rcases hc with ((((hc | rfl) | rfl) | rfl) | rfl) | rfl
  · simp only [Char.isDigit, Bool.and_eq_true, decide_eq_true_eq, ge_iff_le, UInt32.le_iff_toNat_le]
      at hc
    have hlow : 48 ≤ c.toNat := hc.1
    have hhigh : c.toNat ≤ 57 := hc.2
    simp only [isPrintable, Bool.and_eq_true, decide_eq_true_eq]
    omega
  · rfl
  · rfl
  · rfl
  · rfl
  · rfl

/-- A layout without line breaks. -/
def Layout.IsPrintable (L : Layout) : Prop :=
  ∀ d, ∀ c ∈ L.opening d ++ L.next d ++ L.closing d, Json.isPrintable c = true

theorem Layout.plain_isPrintable : Layout.plain.IsPrintable := by
  intro d c hc
  obtain rfl : c = ' ' := by simpa [Layout.plain] using hc
  rfl

mutual

theorem isPrintable_write {L : Layout} (hL : L.IsPrintable) (d : ℕ) (v : Json) :
    ∀ c ∈ write L d v, isPrintable c = true := by
  intro c hc
  match v with
  | .null =>
      rw [write] at hc
      revert c
      decide
  | .bool true =>
      rw [write] at hc
      revert c
      decide
  | .bool false =>
      rw [write] at hc
      revert c
      decide
  | .num n =>
      rw [write] at hc
      exact isPrintable_of_isNumeralChar (numeralChar_of_mem n hc)
  | .str s =>
      rw [write] at hc
      exact isPrintable_writeString s c hc
  | .arr [] =>
      rw [write] at hc
      revert c
      decide
  | .arr (v :: vs) =>
      rw [write, List.mem_cons, List.mem_append, List.mem_append] at hc
      rcases hc with rfl | hc | hc | hc
      · rfl
      · exact hL d c (by simp [hc])
      · exact isPrintable_write hL (d + 1) v c hc
      · exact isPrintable_writeElements hL d vs c hc
  | .obj [] =>
      rw [write] at hc
      revert c
      decide
  | .obj ((k, v) :: members) =>
      rw [write, List.mem_cons, List.mem_append, List.mem_append, List.mem_cons, List.mem_cons,
        List.mem_append] at hc
      rcases hc with rfl | hc | hc | rfl | rfl | hc | hc
      · rfl
      · exact hL d c (by simp [hc])
      · exact isPrintable_writeString k c hc
      · rfl
      · rfl
      · exact isPrintable_write hL (d + 1) v c hc
      · exact isPrintable_writeMembers hL d members c hc

theorem isPrintable_writeElements {L : Layout} (hL : L.IsPrintable) (d : ℕ) (vs : List Json) :
    ∀ c ∈ writeElements L d vs, isPrintable c = true := by
  intro c hc
  match vs with
  | [] =>
      rw [writeElements, List.mem_append, List.mem_singleton] at hc
      rcases hc with hc | rfl
      · exact hL d c (by simp [hc])
      · rfl
  | v :: vs =>
      rw [writeElements, List.mem_cons, List.mem_append, List.mem_append] at hc
      rcases hc with rfl | hc | hc | hc
      · rfl
      · exact hL d c (by simp [hc])
      · exact isPrintable_write hL (d + 1) v c hc
      · exact isPrintable_writeElements hL d vs c hc

theorem isPrintable_writeMembers {L : Layout} (hL : L.IsPrintable) (d : ℕ)
    (members : List (Str × Json)) : ∀ c ∈ writeMembers L d members, isPrintable c = true := by
  intro c hc
  match members with
  | [] =>
      rw [writeMembers, List.mem_append, List.mem_singleton] at hc
      rcases hc with hc | rfl
      · exact hL d c (by simp [hc])
      · rfl
  | (k, v) :: members =>
      rw [writeMembers, List.mem_cons, List.mem_append, List.mem_append, List.mem_cons,
        List.mem_cons, List.mem_append] at hc
      rcases hc with rfl | hc | hc | rfl | rfl | hc | hc
      · rfl
      · exact hL d c (by simp [hc])
      · exact isPrintable_writeString k c hc
      · rfl
      · rfl
      · exact isPrintable_write hL (d + 1) v c hc
      · exact isPrintable_writeMembers hL d members c hc

end

theorem isPrintable_dumps (v : Json) : ∀ c ∈ dumps v, isPrintable c = true :=
  isPrintable_write Layout.plain_isPrintable 0 v

theorem writeMembers_concat (L : Layout) (d : ℕ) (members : List (Str × Json)) :
    ∃ s, writeMembers L d members = s ++ ['}'] := by
  induction members with
  | nil => exact ⟨L.closing d, by rw [writeMembers]⟩
  | cons e members ih =>
      obtain ⟨s, hs⟩ := ih
      refine ⟨',' :: (L.next d ++
        (writeString e.1 ++ ':' :: ' ' :: (write L (d + 1) e.2 ++ s))), ?_⟩
      rw [writeMembers, hs]
      simp

/-- An object is written between braces. -/
theorem dumps_obj (members : List (Str × Json)) :
    ∃ s, dumps (obj members) = '{' :: (s ++ ['}']) := by
  cases members with
  | nil => exact ⟨[], by rw [dumps, write, List.nil_append]⟩
  | cons e members =>
      obtain ⟨s, hs⟩ := writeMembers_concat .plain 0 members
      refine ⟨Layout.plain.opening 0 ++ (writeString e.1 ++ ':' :: ' ' ::
        (write .plain 1 e.2 ++ s)), ?_⟩
      rw [dumps, write, hs]
      simp

/-! ## Integers -/

theorem isDigit_digits {n : ℕ} {c : Char} (hc : c ∈ Nat.toDigits 10 n) : c.isDigit = true :=
  Nat.isDigit_of_mem_toDigits (by decide) (by decide) hc

theorem dropWhile_digits {s : Str} (h : ∀ c ∈ s, c.isDigit = true) :
    s.dropWhile Char.isDigit = [] :=
  List.dropWhile_eq_nil_iff.mpr h

/-- No number is written with a zero in front. -/
theorem head_digits {n : ℕ} (hn : 0 < n) : ∃ c s, Nat.toDigits 10 n = c :: s ∧ c ≠ '0' := by
  induction n using Nat.strong_induction_on with
  | h n ih =>
      by_cases hlt : n < 10
      · have hdigit : ∀ m < 10, 0 < m → m.digitChar ≠ '0' := by decide
        exact ⟨n.digitChar, [], Nat.toDigits_of_lt_base hlt, hdigit n hlt hn⟩
      · obtain ⟨c, s, hs, hc⟩ := ih (n / 10) (by omega) (by omega)
        rw [Nat.toDigits_of_base_le (by decide) (by omega), hs]
        exact ⟨c, _, rfl, hc⟩

theorem isUnsigned_cons_of_ne {c : Char} (hc : c ≠ '0') (s : Str) :
    isUnsigned (c :: s) = (c.isDigit && isFraction (s.dropWhile Char.isDigit)) := by
  unfold isUnsigned
  split
  · rename_i heq
    exact absurd (List.cons.inj heq).1 hc
  · rename_i heq
    obtain ⟨rfl, rfl⟩ := List.cons.inj heq
    rfl
  · rename_i heq
    exact absurd heq (List.cons_ne_nil _ _)

theorem isUnsigned_digits (n : ℕ) : isUnsigned (Nat.toDigits 10 n) = true := by
  rcases Nat.eq_zero_or_pos n with rfl | hn
  · decide
  · obtain ⟨c, s, hs, hc⟩ := head_digits hn
    have hall : ∀ d ∈ c :: s, d.isDigit = true := fun d hd ↦ isDigit_digits (hs ▸ hd)
    rw [hs, isUnsigned_cons_of_ne hc, hall c List.mem_cons_self,
      dropWhile_digits fun d hd ↦ hall d (List.mem_cons_of_mem _ hd)]
    rfl

theorem all_isNumeralChar_digits (n : ℕ) : (Nat.toDigits 10 n).all isNumeralChar = true := by
  rw [List.all_eq_true]
  intro c hc
  rw [isNumeralChar, isDigit_digits hc]
  rfl

theorem minus_notMem_digits (n : ℕ) : '-' ∉ Nat.toDigits 10 n := fun h ↦
  absurd (isDigit_digits h) (by decide)

theorem isNumeral_digits (n : ℕ) : isNumeral (Nat.toDigits 10 n) = true := by
  have hall := all_isNumeralChar_digits n
  have hminus := minus_notMem_digits n
  have hunsigned := isUnsigned_digits n
  generalize Nat.toDigits 10 n = s at *
  unfold isNumeral
  split
  · exact absurd List.mem_cons_self hminus
  · rw [hall, hunsigned]
    rfl

def ofNat (n : ℕ) : Json := num ⟨Nat.toDigits 10 n, isNumeral_digits n⟩

def ofInt : ℤ → Json
  | .ofNat n => ofNat n
  | .negSucc n => num ⟨'-' :: Nat.toDigits 10 (n + 1), by
      rw [isNumeral, List.all_cons, all_isNumeralChar_digits]
      exact isUnsigned_digits (n + 1)⟩

def readDigits (s : Str) : Option ℕ :=
  if s.all Char.isDigit then some (Nat.ofDigitChars 10 s 0) else none

/-- The integer that is written so, without a fraction and an exponent. -/
def readInt : Str → Option ℤ
  | '-' :: s => (readDigits s).map fun n ↦ -(n : ℤ)
  | s => (readDigits s).map fun n ↦ (n : ℤ)

def toInt? : Json → Option ℤ
  | num n => readInt n.text
  | _ => none

def toNat? : Json → Option ℕ
  | num n => readDigits n.text
  | _ => none

theorem readDigits_digits (n : ℕ) : readDigits (Nat.toDigits 10 n) = some n := by
  have hall : (Nat.toDigits 10 n).all Char.isDigit = true :=
    List.all_eq_true.mpr fun _ hc ↦ isDigit_digits hc
  rw [readDigits, if_pos hall, Nat.ofDigitChars_ten_toDigits]

theorem toNat?_ofNat (n : ℕ) : (ofNat n).toNat? = some n := readDigits_digits n

theorem toInt?_ofInt (n : ℤ) : (ofInt n).toInt? = some n := by
  cases n with
  | ofNat n =>
      have hminus := minus_notMem_digits n
      have hread := readDigits_digits n
      change readInt (Nat.toDigits 10 n) = some (n : ℤ)
      generalize Nat.toDigits 10 n = s at *
      unfold readInt
      split
      · exact absurd List.mem_cons_self hminus
      · rw [hread]
        rfl
  | negSucc n =>
      change (readDigits (Nat.toDigits 10 (n + 1))).map (fun n ↦ -(n : ℤ)) = _
      rw [readDigits_digits]
      rfl

end Json

end StorageReconciler
