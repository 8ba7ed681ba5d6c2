import StorageReconciler.Foundations.Json

/-!
# Front parts of JSON documents

Whatever a reader makes of a text it also makes of a longer one, so that the text of an
object that ends too early is no document: a file that is still being written is refused.
-/

namespace StorageReconciler.Json

open Strings

variable {fuel fuel' : ℕ} {s rest : Str} (t : Str)

/-! ## Strings and numbers -/

theorem skipBlanks_extend (h : skipBlanks s ≠ []) : skipBlanks (s ++ t) = skipBlanks s ++ t := by
  induction s with
  | nil => exact absurd rfl h
  | cons c s ih =>
      by_cases hc : isBlank c = true
      · have hskip : ∀ u, skipBlanks (c :: u) = skipBlanks u := fun u ↦
          List.dropWhile_cons_of_pos hc
        rw [List.cons_append, hskip, hskip]
        exact ih (hskip s ▸ h)
      · have hskip : ∀ u, skipBlanks (c :: u) = c :: u := fun u ↦ List.dropWhile_cons_of_neg hc
        rw [List.cons_append, hskip, hskip, List.cons_append]

theorem skipBlanks_extend_cons {c : Char} {u : Str} (h : skipBlanks s = c :: u) :
    skipBlanks (s ++ t) = c :: (u ++ t) := by
  rw [skipBlanks_extend t (h ▸ List.cons_ne_nil c u), h, List.cons_append]

theorem readHex4_extend {n : ℕ} (h : readHex4 s = some (n, rest)) :
    readHex4 (s ++ t) = some (n, rest ++ t) := by
  unfold readHex4 at h
  split at h
  · simp only [List.cons_append, readHex4]
    split at h
    · obtain ⟨rfl, rfl⟩ := Prod.mk.inj (Option.some.inj h)
      rfl
    · cases h
  · cases h

theorem unescape_extend {c : Char} (h : unescape s = some (c, rest)) :
    unescape (s ++ t) = some (c, rest ++ t) := by
  unfold unescape at h
  split at h
  · obtain ⟨⟨n, u⟩, hhex, h⟩ := Option.bind_eq_some_iff.mp h
    simp only [List.cons_append, unescape, readHex4_extend t hhex, Option.bind_some]
    dsimp only at h
    split_ifs at h ⊢ with hhigh hlow
    · split at h
      · obtain ⟨⟨m, w⟩, hhex', h⟩ := Option.bind_eq_some_iff.mp h
        simp only [List.cons_append, readHex4_extend t hhex', Option.bind_some]
        dsimp only at h
        split_ifs at h ⊢ with hpair
        obtain ⟨rfl, rfl⟩ := Prod.mk.inj (Option.some.inj h)
        rfl
      · cases h
    · obtain ⟨rfl, rfl⟩ := Prod.mk.inj (Option.some.inj h)
      rfl
  · rename_i c' u hne
    obtain ⟨d, hd, h⟩ := Option.map_eq_some_iff.mp h
    obtain ⟨rfl, rfl⟩ := Prod.mk.inj h
    have hu : c' ≠ 'u' := fun heq ↦ hne heq
    rw [List.cons_append, unescape]
    · rw [hd]
      rfl
    · exact hu
  · cases h

theorem readString_cons_of_ne {c : Char} (hquote : c ≠ '"') (hslash : c ≠ '\\') (u : Str) :
    readString (fuel + 1) (c :: u) =
      if c.toNat < 0x20 then none
      else (readString fuel u).map fun (s, rest) ↦ (c :: s, rest) := by
  rw [readString]
  · exact hquote
  · exact hslash

theorem readString_extend {k : Str} (hfuel : fuel ≤ fuel')
    (h : readString fuel s = some (k, rest)) : readString fuel' (s ++ t) = some (k, rest ++ t) := by
  induction fuel generalizing s k fuel' with
  | zero =>
      rw [readString] at h
      cases h
  | succ fuel ih =>
      obtain ⟨fuel', rfl⟩ : ∃ n, fuel' = n + 1 := ⟨fuel' - 1, by omega⟩
      have hle : fuel ≤ fuel' := by omega
      cases s with
      | nil =>
          rw [readString] at h
          cases h
      | cons c u =>
          rw [List.cons_append]
          by_cases hquote : c = '"'
          · subst hquote
            rw [readString] at h ⊢
            obtain ⟨rfl, rfl⟩ := Prod.mk.inj (Option.some.inj h)
            rfl
          · by_cases hslash : c = '\\'
            · subst hslash
              rw [readString] at h ⊢
              obtain ⟨⟨d, w⟩, hd, h⟩ := Option.bind_eq_some_iff.mp h
              obtain ⟨⟨k', w'⟩, hk, h⟩ := Option.map_eq_some_iff.mp h
              obtain ⟨rfl, rfl⟩ := Prod.mk.inj h
              simp only [unescape_extend t hd, Option.bind_some, ih hle hk, Option.map_some]
            · rw [readString_cons_of_ne hquote hslash] at h ⊢
              split_ifs at h ⊢
              obtain ⟨⟨k', w⟩, hk, h⟩ := Option.map_eq_some_iff.mp h
              obtain ⟨rfl, rfl⟩ := Prod.mk.inj h
              rw [ih hle hk]
              rfl

/-- What a numeral begins with, and where it ends. -/
theorem readNumeral_eq_some {v : Json} (h : readNumeral s = some (v, rest)) :
    (∃ c u, s = c :: u ∧ (c = '-' ∨ c.isDigit = true)) ∧
      ∃ n, v = num n ∧ s = n.text ++ rest ∧ Ends rest := by
  unfold readNumeral at h
  split_ifs at h with hvalid
  obtain ⟨rfl, rfl⟩ := Prod.mk.inj (Option.some.inj h)
  have hsplit := List.takeWhile_append_dropWhile (p := isNumeralChar) (l := s)
  refine ⟨?_, ⟨_, hvalid⟩, rfl, hsplit.symm, fun c hc ↦ ?_⟩
  · obtain ⟨c, u, htext, hc⟩ := Numeral.exists_cons ⟨_, hvalid⟩
    dsimp only at htext
    rw [htext, List.cons_append] at hsplit
    exact ⟨c, _, hsplit.symm, hc⟩
  · have hhead := List.head?_dropWhile_not isNumeralChar s
    rw [hc] at hhead
    simpa using hhead

/-! ## Values -/

/-- A value that ends before the text does is also read from a longer text; an object may
end where the text does. -/
def ValueExtends (fuel : ℕ) : Prop :=
  ∀ (s : Str) (v : Json) (rest : Str) (fuel' : ℕ), fuel ≤ fuel' →
    readValue fuel s = some (v, rest) → rest ≠ [] ∨ s.head? = some '{' →
      readValue fuel' (s ++ t) = some (v, rest ++ t)

def ElementsExtend (fuel : ℕ) : Prop :=
  ∀ (s : Str) (vs : List Json) (rest : Str) (fuel' : ℕ), fuel ≤ fuel' →
    readElements fuel s = some (vs, rest) → readElements fuel' (s ++ t) = some (vs, rest ++ t)

def MembersExtend (fuel : ℕ) : Prop :=
  ∀ (s : Str) (pairs : List (Str × Json)) (rest : Str) (fuel' : ℕ), fuel ≤ fuel' →
    readMembers fuel s = some (pairs, rest) → readMembers fuel' (s ++ t) = some (pairs, rest ++ t)

/-- Nothing is read where there is nothing. -/
theorem readValue_nil (fuel : ℕ) : readValue fuel [] = none := by
  cases fuel with
  | zero => rw [readValue]
  | succ fuel => rfl

theorem readElements_nil (fuel : ℕ) : readElements fuel [] = none := by
  cases fuel with
  | zero => rw [readElements]
  | succ fuel =>
      rw [readElements, readValue_nil]
      rfl

theorem readMembers_nil (fuel : ℕ) : readMembers fuel [] = none := by
  cases fuel with
  | zero => rw [readMembers]
  | succ fuel => rfl

theorem ElementsExtend.succ (hv : ValueExtends t fuel) (he : ElementsExtend t fuel) :
    ElementsExtend t (fuel + 1) := by
  intro s vs rest fuel' hfuel h
  obtain ⟨fuel', rfl⟩ : ∃ n, fuel' = n + 1 := ⟨fuel' - 1, by omega⟩
  have hle : fuel ≤ fuel' := by omega
  rw [readElements] at h ⊢
  obtain ⟨⟨v, u⟩, hvalue, h⟩ := Option.bind_eq_some_iff.mp h
  dsimp only at h
  have hu : u ≠ [] := by
    rintro rfl
    cases h
  rw [hv s v u fuel' hle hvalue (.inl hu), Option.bind_some]
  split at h
  · rename_i w hskip
    obtain ⟨⟨vs', w'⟩, hmore, h⟩ := Option.map_eq_some_iff.mp h
    obtain ⟨rfl, rfl⟩ := Prod.mk.inj h
    have hw : skipBlanks w ≠ [] := by
      intro hnil
      rw [hnil, readElements_nil] at hmore
      cases hmore
    simp only [skipBlanks_extend_cons t hskip, skipBlanks_extend t hw, he _ _ _ fuel' hle hmore,
      Option.map_some]
  · rename_i w hskip
    obtain ⟨rfl, rfl⟩ := Prod.mk.inj (Option.some.inj h)
    simp only [skipBlanks_extend_cons t hskip]
  · cases h

theorem readMembers_eq_some {pairs : List (Str × Json)}
    (h : readMembers (fuel + 1) s = some (pairs, rest)) : ∃ u, s = '"' :: u := by
  unfold readMembers at h
  split at h
  · cases h
  · exact ⟨_, rfl⟩
  · cases h

theorem MembersExtend.succ (hv : ValueExtends t fuel) (hm : MembersExtend t fuel) :
    MembersExtend t (fuel + 1) := by
  intro s pairs rest fuel' hfuel h
  obtain ⟨fuel', rfl⟩ : ∃ n, fuel' = n + 1 := ⟨fuel' - 1, by omega⟩
  have hle : fuel ≤ fuel' := by omega
  obtain ⟨s, rfl⟩ := readMembers_eq_some h
  rw [List.cons_append]
  rw [readMembers] at h ⊢
  obtain ⟨⟨k, u⟩, hk, h⟩ := Option.bind_eq_some_iff.mp h
  dsimp only at h
  simp only [readString_extend t hle hk, Option.bind_some]
  split at h
  · rename_i w hcolon
    obtain ⟨⟨v, x⟩, hvalue, h⟩ := Option.bind_eq_some_iff.mp h
    dsimp only at h
    have hx : x ≠ [] := by
      rintro rfl
      cases h
    have hw : skipBlanks w ≠ [] := by
      intro hnil
      rw [hnil, readValue_nil] at hvalue
      cases hvalue
    simp only [skipBlanks_extend_cons t hcolon, skipBlanks_extend t hw,
      hv _ v x fuel' hle hvalue (.inl hx), Option.bind_some]
    split at h
    · rename_i y hcomma
      obtain ⟨⟨pairs', z⟩, hmore, h⟩ := Option.map_eq_some_iff.mp h
      obtain ⟨rfl, rfl⟩ := Prod.mk.inj h
      have hy : skipBlanks y ≠ [] := by
        intro hnil
        rw [hnil, readMembers_nil] at hmore
        cases hmore
      simp only [skipBlanks_extend_cons t hcomma, skipBlanks_extend t hy,
        hm _ _ _ fuel' hle hmore, Option.map_some]
    · rename_i y hbrace
      obtain ⟨rfl, rfl⟩ := Prod.mk.inj (Option.some.inj h)
      simp only [skipBlanks_extend_cons t hbrace]
    · cases h
  · cases h

theorem ValueExtends.succ (he : ElementsExtend t fuel) (hm : MembersExtend t fuel) :
    ValueExtends t (fuel + 1) := by
  intro s v rest fuel' hfuel h hends
  obtain ⟨fuel', rfl⟩ : ∃ n, fuel' = n + 1 := ⟨fuel' - 1, by omega⟩
  have hle : fuel ≤ fuel' := by omega
  have hnumeral : readNumeral s = some (v, rest) →
      readValue (fuel' + 1) (s ++ t) = some (v, rest ++ t) := by
    intro hread
    obtain ⟨⟨c, u, rfl, hc⟩, n, rfl, hsplit, hrest⟩ := readNumeral_eq_some hread
    have hne : rest ≠ [] := by
      rcases hends with hne | hhead
      · exact hne
      · obtain rfl := Option.some.inj hhead
        rcases hc with hc | hc <;> exact absurd hc (by decide)
    have hrest' : Ends (rest ++ t) := by
      intro d hd
      rw [List.head?_append_of_ne_nil _ hne] at hd
      exact hrest d hd
    rw [List.cons_append, readValue_of_numeral hc, ← List.cons_append, hsplit, List.append_assoc]
    exact readNumeral_append n hrest'
  unfold readValue at h
  split at h
  · cases h
  · obtain ⟨rfl, rfl⟩ := Prod.mk.inj (Option.some.inj h)
    simp only [List.cons_append, readValue]
  · obtain ⟨rfl, rfl⟩ := Prod.mk.inj (Option.some.inj h)
    simp only [List.cons_append, readValue]
  · obtain ⟨rfl, rfl⟩ := Prod.mk.inj (Option.some.inj h)
    simp only [List.cons_append, readValue]
  · rename_i n u hn
    obtain rfl : fuel = n := Nat.succ.inj hn
    obtain ⟨⟨k, w⟩, hk, h⟩ := Option.map_eq_some_iff.mp h
    obtain ⟨rfl, rfl⟩ := Prod.mk.inj h
    simp only [List.cons_append, readValue, readString_extend t hle hk, Option.map_some]
  · rename_i n u hn
    obtain rfl : fuel = n := Nat.succ.inj hn
    rw [List.cons_append]
    split at h
    · rename_i w hskip
      obtain ⟨rfl, rfl⟩ := Prod.mk.inj (Option.some.inj h)
      simp only [readValue, skipBlanks_extend_cons t hskip]
    · rename_i hclosed
      obtain ⟨⟨vs, w⟩, hvs, h⟩ := Option.map_eq_some_iff.mp h
      obtain ⟨rfl, rfl⟩ := Prod.mk.inj h
      cases hskip : skipBlanks u with
      | nil =>
          rw [hskip, readElements_nil] at hvs
          cases hvs
      | cons c x =>
          have hc : c ≠ ']' := fun heq ↦ hclosed x (heq ▸ hskip)
          rw [hskip] at hvs
          exact readValue_bracket (skipBlanks_extend_cons t hskip) hc (he _ _ _ fuel' hle hvs)
  · rename_i n u hn
    obtain rfl : fuel = n := Nat.succ.inj hn
    rw [List.cons_append]
    split at h
    · rename_i w hskip
      obtain ⟨rfl, rfl⟩ := Prod.mk.inj (Option.some.inj h)
      simp only [readValue, skipBlanks_extend_cons t hskip]
    · obtain ⟨⟨pairs, w⟩, hpairs, h⟩ := Option.map_eq_some_iff.mp h
      obtain ⟨rfl, rfl⟩ := Prod.mk.inj h
      cases fuel with
      | zero =>
          rw [readMembers] at hpairs
          cases hpairs
      | succ fuel =>
          obtain ⟨x, hx⟩ := readMembers_eq_some hpairs
          rw [hx] at hpairs
          exact readValue_brace (skipBlanks_extend_cons t hx) (hm _ _ _ fuel' hle hpairs)
  · exact hnumeral h

theorem read_extends (fuel : ℕ) :
    ValueExtends t fuel ∧ ElementsExtend t fuel ∧ MembersExtend t fuel := by
  induction fuel with
  | zero =>
      refine ⟨fun s v rest _ _ h ↦ ?_, fun s vs rest _ _ h ↦ ?_, fun s pairs rest _ _ h ↦ ?_⟩
      · rw [readValue] at h
        cases h
      · rw [readElements] at h
        cases h
      · rw [readMembers] at h
        cases h
  | succ fuel ih =>
      obtain ⟨hv, he, hm⟩ := ih
      exact ⟨.succ t he hm, .succ t hv he, .succ t hv hm⟩

/-- The text of an object that ends too early is no document. -/
theorem loads_front (L : Layout) {members : List (Str × Json)} (hv : (obj members).Distinct)
    {front more : Str} (hsplit : write L 0 (obj members) = front ++ more) (hmore : more ≠ []) :
    loads front = none := by
  by_contra hloads
  obtain ⟨v, hv'⟩ := Option.ne_none_iff_exists'.mp hloads
  obtain ⟨u, hu⟩ : ∃ u, write L 0 (obj members) = '{' :: u := by
    cases members with
    | nil => exact ⟨['}'], by rw [write]⟩
    | cons e members => exact ⟨_, by rw [write]⟩
  cases front with
  | nil => exact absurd hv' (by simp [loads, readValue_nil, skipBlanks])
  | cons c front =>
      obtain rfl : c = '{' := (List.cons.inj (hsplit.symm.trans hu)).1
      have hskip : skipBlanks ('{' :: front) = '{' :: front := skipBlanks_cons rfl front
      unfold loads at hv'
      rw [hskip] at hv'
      split at hv'
      · rename_i w rest hread
        have hlong : ('{' :: front).length ≤ (write L 0 (obj members)).length := by
          rw [hsplit, List.length_append]
          exact Nat.le_add_right _ _
        have hextended := (read_extends more _).1 _ w rest _ hlong hread (.inr rfl)
        have hends : Ends [] := fun c hc ↦ absurd hc.symm (Option.some_ne_none c)
        have hwhole := readValue_write L 0 (obj members) hv [] hends _ le_rfl
        rw [List.append_nil] at hwhole
        rw [← hsplit] at hextended
        have hrest := (Prod.mk.inj (Option.some.inj (hextended.symm.trans hwhole))).2
        exact hmore (List.append_eq_nil_iff.mp hrest).2
      · cases hv'

end StorageReconciler.Json
