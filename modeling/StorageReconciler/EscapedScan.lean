import StorageReconciler.EmbeddedSpellings
import StorageReconciler.Foundations.JsonEscape

/-!
# Scanning an escaped text

The scanner runs over the escaped text of a JSON column.  A delimiter stops it
there as before, but a quotation mark leaves its backslash to the address and a
control character turns into ordinary text.  What becomes of the path of an
address is computed here.
-/

namespace StorageReconciler

open Strings Patterns UrlSplit PercentCoding JsonEscape

/-- Stops the scanner in the escaped text too. -/
def isDelimiter (c : Char) : Bool := !isUrlChar c && decide (0x20 ≤ c.toNat)

/-- What the scanner runs through when it reads the escaped text. -/
def jsonRun (s : Str) : Str :=
  jsonEscape (s.takeWhile (!isDelimiter ·)) ++
    if (s.dropWhile (!isDelimiter ·)).head? = some '"' then ['\\'] else []

/-! ## The scanner on escaped text -/

theorem isUrlChar_of_jsonEscapeChar {c : Char} (hc : isDelimiter c = false) :
    ∀ d ∈ jsonEscapeChar c, isUrlChar d = true := by
  cases hesc : isEscaped c with
  | true =>
      have hall : isDelimiter c = false → ∀ d ∈ jsonEscapeChar c, isUrlChar d = true :=
        forall_escaped (P := fun c ↦ isDelimiter c = false →
          ∀ d ∈ jsonEscapeChar c, isUrlChar d = true) (by decide +kernel) hesc
      exact hall hc
  | false =>
      have hge : 0x20 ≤ c.toNat := by
        by_contra hlt
        have : decide (c.toNat < 0x20) = true := by simpa using hlt
        simp [isEscaped, this] at hesc
      have hurl : isUrlChar c = true := by simpa [isDelimiter, hge] using hc
      simpa [jsonEscapeChar, hesc] using hurl

theorem isUrlChar_jsonEscape {s : Str} (hs : ∀ c ∈ s, isDelimiter c = false) :
    ∀ d ∈ jsonEscape s, isUrlChar d = true := by
  intro d hd
  obtain ⟨c, hc, hdc⟩ := List.mem_flatMap.mp hd
  exact isUrlChar_of_jsonEscapeChar (hs c hc) d hdc

theorem isDelimiter_of_isUrlChar {c : Char} (hc : isUrlChar c = true) :
    isDelimiter c = false := by
  simp [isDelimiter, hc]

theorem jsonEscapeChar_delimiter {c : Char} (hc : isDelimiter c = true) :
    isUrlChar c = false ∧
      jsonEscapeChar c = (if c = '"' then ['\\'] else []) ++ [c] := by
  simp only [isDelimiter, Bool.and_eq_true, Bool.not_eq_true', decide_eq_true_eq] at hc
  refine ⟨hc.1, ?_⟩
  by_cases hquote : c = '"'
  · subst hquote
    rfl
  · have hslash : c ≠ '\\' := by
      rintro rfl
      exact absurd hc.1 (by decide)
    have hesc : isEscaped c = false := by
      simp only [isEscaped, Bool.or_eq_false_iff, beq_eq_false_iff_ne, decide_eq_false_iff_not]
      exact ⟨⟨hquote, hslash⟩, by omega⟩
    simp [jsonEscapeChar, hesc, hquote]

theorem takeWhile_isUrlChar_jsonEscape (s : Str) :
    (jsonEscape s).takeWhile isUrlChar = jsonRun s := by
  induction s with
  | nil => rfl
  | cons c s ih =>
      rw [jsonEscape_cons]
      cases hc : isDelimiter c with
      | false =>
          rw [List.takeWhile_append_of_pos (isUrlChar_of_jsonEscapeChar hc), ih]
          simp [jsonRun, hc, jsonEscape_cons]
      | true =>
          obtain ⟨hstop, hform⟩ := jsonEscapeChar_delimiter hc
          rw [hform]
          by_cases hquote : c = '"'
          · subst hquote
            rfl
          · simp [jsonRun, hc, hquote, hstop]

theorem jsonRun_append {s : Str} (hs : ∀ c ∈ s, isDelimiter c = false) (t : Str) :
    jsonRun (s ++ t) = jsonEscape s ++ jsonRun t := by
  rw [← takeWhile_isUrlChar_jsonEscape, ← takeWhile_isUrlChar_jsonEscape, jsonEscape_append,
    List.takeWhile_append_of_pos (isUrlChar_jsonEscape hs)]

theorem matchLiteral_jsonEscape {literal : Str} (hlit : ∀ p ∈ literal, reEq p '\\' = false ∧
    ∀ n < 128, isEscaped (Char.ofNat n) = true → reEq p (Char.ofNat n) = false) (s : Str) :
    matchLiteral literal (jsonEscape s) = (matchLiteral literal s).map jsonEscape := by
  induction literal generalizing s with
  | nil => rfl
  | cons p literal ih =>
      obtain ⟨⟨hback, hesc⟩, hrest⟩ := List.forall_mem_cons.mp hlit
      cases s with
      | nil => rfl
      | cons c s =>
          cases hc : isEscaped c with
          | true =>
              have hpc : reEq p c = false :=
                forall_escaped (P := fun c ↦ reEq p c = false) hesc hc
              simp [jsonEscape_cons_escaped hc, matchLiteral, hback, hpc]
          | false =>
              rw [jsonEscape_cons_plain hc]
              by_cases hpc : reEq p c = true <;> simp [matchLiteral, hpc, ih hrest]

theorem afterScheme_jsonEscape (s : Str) :
    afterScheme (jsonEscape s) = (afterScheme s).map jsonEscape := by
  rw [afterScheme, afterScheme, matchLiteral_jsonEscape (by decide),
    matchLiteral_jsonEscape (by decide)]
  cases matchLiteral "https://".toList s <;> rfl

theorem afterScheme_cons_none {c : Char} (hc : reEq 'h' c = false) (s : Str) :
    afterScheme (c :: s) = none := by
  have hlong : matchLiteral "https://".toList (c :: s) = none :=
    matchLiteral_cons_none hc "ttps://".toList s
  have hshort : matchLiteral "http://".toList (c :: s) = none :=
    matchLiteral_cons_none hc "ttp://".toList s
  rw [afterScheme, hlong, hshort, Option.none_or]

theorem exists_of_afterScheme_jsonEscape {t x y : Str} (hxy : jsonEscape t = x ++ y)
    (hy : afterScheme y ≠ none) :
    ∃ t₁ t₂, t = t₁ ++ t₂ ∧ x = jsonEscape t₁ ∧ y = jsonEscape t₂ := by
  induction t generalizing x with
  | nil =>
      obtain ⟨rfl, rfl⟩ := List.append_eq_nil_iff.mp hxy.symm
      exact ⟨[], [], rfl, rfl, rfl⟩
  | cons c t ih =>
      rw [jsonEscape_cons] at hxy
      rcases List.append_eq_append_iff.mp hxy with ⟨m, rfl, hm⟩ | ⟨m, hm, rfl⟩
      · obtain ⟨t₁, t₂, rfl, rfl, rfl⟩ := ih hm
        exact ⟨c :: t₁, t₂, rfl, rfl, rfl⟩
      · cases x with
        | nil =>
            refine ⟨[], c :: t, rfl, rfl, ?_⟩
            rw [List.nil_append] at hm
            rw [jsonEscape_cons, hm]
        | cons d x =>
            cases m with
            | nil => exact ⟨[c], t, rfl, by simpa [jsonEscape] using hm.symm, rfl⟩
            | cons e m =>
                -- `e` stands inside an escape, where no address starts
                refine absurd (afterScheme_cons_none ?_ (m ++ jsonEscape t)) hy
                cases hc : isEscaped c with
                | false => simp [jsonEscapeChar, hc] at hm
                | true =>
                    have htail : ∀ a ∈ escapeTail c, reEq 'h' a = false :=
                      forall_escaped (P := fun c ↦ ∀ a ∈ escapeTail c, reEq 'h' a = false)
                        (by decide +kernel) hc
                    simp only [jsonEscapeChar, hc, if_true, List.cons_append,
                      List.cons.injEq] at hm
                    exact htail e (by rw [hm.2]; simp)

/-! ## The path behind an escaped address -/

def isPathEnd (c : Char) : Bool := c == '#' || c == '?'

/-- What the swallowed text adds to the path. -/
def pathGrowth (rest swallowed : Str) : Str :=
  if rest.any isPathEnd then [] else swallowed.takeWhile (!isPathEnd ·)

/-- Neither escaping nor what is swallowed behind it changes the part that is read. -/
def KeepsPath (rest swallowed : Str) : Prop :=
  (∀ c ∈ pathOf rest, isEscaped c = false) ∧
    (pathGrowth rest swallowed = [] ∨
      (';' ∈ (rawPathOf rest).rtakeWhile (· != '/') ∧ '/' ∉ pathGrowth rest swallowed))

theorem transparent_endsNetloc : Transparent (!endsNetloc ·) :=
  transparent_of_decide (by decide)

theorem transparent_isPathEnd : Transparent (!isPathEnd ·) :=
  transparent_of_decide (by decide)

theorem transparent_slash : Transparent (· != '/') := transparent_of_decide (by decide)

theorem transparent_semicolon : Transparent (· != ';') :=
  transparent_of_decide (by decide)

theorem takeWhile_append_of_stop {α : Type*} {p : α → Bool} {l : List α}
    (h : ∃ c ∈ l, p c = false) (l' : List α) : (l ++ l').takeWhile p = l.takeWhile p := by
  obtain ⟨c, hc, hpc⟩ := h
  obtain ⟨a, b, rfl⟩ := List.append_of_mem hc
  rw [List.append_assoc, List.cons_append, takeWhile_append_stop hpc, takeWhile_append_stop hpc]

theorem dropWhile_append_of_stop {α : Type*} {p : α → Bool} {l : List α}
    (h : ∃ c ∈ l, p c = false) (l' : List α) :
    (l ++ l').dropWhile p = l.dropWhile p ++ l' := by
  obtain ⟨c, hc, hpc⟩ := h
  obtain ⟨a, b, rfl⟩ := List.append_of_mem hc
  calc
    ((a ++ c :: b) ++ l').dropWhile p = (a ++ c :: (b ++ l')).dropWhile p := by
      rw [List.append_assoc, List.cons_append]
    _ = (a.dropWhile p ++ c :: b) ++ l' := by
      rw [dropWhile_append_stop hpc, List.append_assoc, List.cons_append]
    _ = (a ++ c :: b).dropWhile p ++ l' := by rw [dropWhile_append_stop hpc]

theorem rawPathOf_eq (rest : Str) :
    rawPathOf rest = (rest.dropWhile (!endsNetloc ·)).takeWhile (!isPathEnd ·) := by
  rw [rawPathOf]
  congr 1
  funext c
  simp [isPathEnd, bne]

theorem endsNetloc_of_isPathEnd {c : Char} (hc : isPathEnd c = true) : endsNetloc c = true := by
  simp only [isPathEnd, Bool.or_eq_true, beq_iff_eq] at hc
  rcases hc with rfl | rfl <;> rfl

theorem exists_endsNetloc_jsonEscape {rest : Str} (h : ∃ c ∈ rest, endsNetloc c = true) :
    ∃ c ∈ jsonEscape rest, (!endsNetloc c) = false := by
  obtain ⟨c, hc, hends⟩ := h
  have hmem : c ∈ jsonEscape rest := by
    obtain ⟨a, b, rfl⟩ := List.append_of_mem hc
    have hplain : isEscaped c = false := by
      simp only [endsNetloc, Bool.or_eq_true, beq_iff_eq] at hends
      rcases hends with (rfl | rfl) | rfl <;> decide
    simp [jsonEscape_cons_plain hplain]
  exact ⟨c, hmem, by simp [hends]⟩

theorem netlocOf_jsonEscape {rest swallowed : Str}
    (hends : (∃ c ∈ rest, endsNetloc c = true) ∨ swallowed = []) :
    netlocOf (jsonEscape rest ++ swallowed) = jsonEscape (netlocOf rest) := by
  rw [netlocOf, netlocOf, ← takeWhile_jsonEscape transparent_endsNetloc]
  rcases hends with hends | rfl
  · exact takeWhile_append_of_stop (exists_endsNetloc_jsonEscape hends) _
  · rw [List.append_nil]

theorem rawPathOf_jsonEscape {rest swallowed : Str}
    (hends : (∃ c ∈ rest, endsNetloc c = true) ∨ swallowed = []) :
    rawPathOf (jsonEscape rest ++ swallowed) =
      jsonEscape (rawPathOf rest) ++ pathGrowth rest swallowed := by
  have hdrop : (jsonEscape rest ++ swallowed).dropWhile (!endsNetloc ·) =
      jsonEscape (rest.dropWhile (!endsNetloc ·)) ++ swallowed := by
    rw [← dropWhile_jsonEscape transparent_endsNetloc]
    rcases hends with hends | rfl
    · exact dropWhile_append_of_stop (exists_endsNetloc_jsonEscape hends) _
    · simp
  have hsplit := List.takeWhile_append_dropWhile (p := (!endsNetloc ·)) (l := rest)
  rw [rawPathOf_eq, rawPathOf_eq, hdrop, ← takeWhile_jsonEscape transparent_isPathEnd, pathGrowth]
  by_cases hany : rest.any isPathEnd = true
  · obtain ⟨c, hc, hend⟩ := List.any_eq_true.mp hany
    have hmem : c ∈ rest.dropWhile (!endsNetloc ·) := by
      rw [← hsplit] at hc
      rcases List.mem_append.mp hc with hc | hc
      · have := List.mem_takeWhile_imp hc
        simp [endsNetloc_of_isPathEnd hend] at this
      · exact hc
    have hstop : ∃ d ∈ jsonEscape (rest.dropWhile (!endsNetloc ·)), (!isPathEnd d) = false := by
      obtain ⟨a, b, hab⟩ := List.append_of_mem hmem
      have hplain : isEscaped c = false := by
        simp only [isPathEnd, Bool.or_eq_true, beq_iff_eq] at hend
        rcases hend with rfl | rfl <;> decide
      refine ⟨c, ?_, by simp [hend]⟩
      rw [hab, jsonEscape_append, jsonEscape_cons_plain hplain]
      simp
    rw [takeWhile_append_of_stop hstop, if_pos hany, List.append_nil]
  · have hall : ∀ c ∈ rest.dropWhile (!endsNetloc ·), (!isPathEnd c) = true := by
      intro c hc
      have hmem := (List.dropWhile_suffix _).subset hc
      by_contra hend
      exact hany (List.any_eq_true.mpr ⟨c, hmem, by simpa using hend⟩)
    have hself : (rest.dropWhile (!endsNetloc ·)).takeWhile (!isPathEnd ·) =
        rest.dropWhile (!endsNetloc ·) := List.takeWhile_eq_self_iff.mpr hall
    have hkeep := takeWhile_jsonEscape transparent_isPathEnd (rest.dropWhile (!endsNetloc ·))
    rw [hself] at hkeep
    rw [List.takeWhile_append_of_pos (List.takeWhile_eq_self_iff.mp hkeep), hkeep, if_neg hany]

theorem cutParams_append_segment {d l : Str} (hd : ∀ hne : d ≠ [], d.getLast hne = '/')
    (hl : '/' ∉ l) : cutParams (d ++ l) = d ++ l.takeWhile (· != ';') := by
  have hsegment : ∀ l : Str, '/' ∉ l → cutParams l = l.takeWhile (· != ';') := by
    intro l hl
    have hall : ∀ c ∈ l, (c != '/') = true := by
      intro c hc
      simp only [bne_iff_ne, ne_eq]
      rintro rfl
      exact hl hc
    have hdrop : l.rdropWhile (· != '/') = [] := List.rdropWhile_eq_nil_iff.mpr hall
    have htake : l.rtakeWhile (· != '/') = l := List.rtakeWhile_eq_self_iff.mpr hall
    simp only [cutParams, splitParams, hdrop, htake]
    split_ifs with hsemi
    · rfl
    · symm
      rw [List.takeWhile_eq_self_iff]
      intro c hc
      simp only [bne_iff_ne, ne_eq]
      rintro rfl
      exact hsemi (by simpa [List.contains_eq_mem] using hc)
  by_cases hne : d = []
  · rw [hne, List.nil_append, List.nil_append]
    exact hsegment l hl
  · have hlast := List.dropLast_append_getLast hne
    rw [hd hne] at hlast
    calc
      cutParams (d ++ l) = cutParams (d.dropLast ++ '/' :: l) := by
        rw [← hlast, List.append_assoc, List.singleton_append, hlast]
      _ = d.dropLast ++ '/' :: l.takeWhile (· != ';') := by rw [cutParams_append, hsegment l hl]
      _ = d ++ l.takeWhile (· != ';') := by
        rw [← List.singleton_append, ← List.append_assoc, hlast]

theorem exists_segments (q : Str) : ∃ d l, q = d ++ l ∧ (∀ hne : d ≠ [], d.getLast hne = '/') ∧
    '/' ∉ l ∧ l = q.rtakeWhile (· != '/') := by
  refine ⟨q.rdropWhile (· != '/'), q.rtakeWhile (· != '/'),
    List.rdropWhile_append_rtakeWhile.symm, fun hne ↦ ?_, fun hmem ↦ ?_, rfl⟩
  · simpa using List.rdropWhile_last_not (· != '/') q hne
  · simpa using List.mem_rtakeWhile_imp hmem

theorem getLast_jsonEscape {d : Str} (hd : ∀ hne : d ≠ [], d.getLast hne = '/') :
    ∀ hne : jsonEscape d ≠ [], (jsonEscape d).getLast hne = '/' := by
  rcases List.eq_nil_or_concat d with rfl | ⟨d', c, rfl⟩
  · intro hne
    exact absurd rfl hne
  · have hc : c = '/' := by simpa using hd (by simp)
    subst hc
    intro hne
    simp [jsonEscape_cons, jsonEscapeChar, isEscaped]

theorem cutParams_jsonEscape_of_slash {d l growth : Str} (hslash : '/' ∈ growth)
    (hgrowth : ∀ c, growth.head? = some c → c = '\\') : ∃ more,
    cutParams (jsonEscape (d ++ l) ++ growth) =
        jsonEscape (d ++ l.takeWhile (· != ';')) ++ more ∧
      more ≠ [] ∧ ∀ c, more.head? = some c → c = ';' ∨ c = '\\' := by
  obtain ⟨e₁, e₂, rfl, _⟩ := List.eq_append_cons_of_mem hslash
  have hsplit := List.takeWhile_append_dropWhile (p := (· != ';')) (l := l)
  refine ⟨jsonEscape (l.dropWhile (· != ';')) ++ e₁ ++ '/' :: cutParams e₂, ?_, by simp, ?_⟩
  · have hescape : jsonEscape (d ++ l) = jsonEscape (d ++ l.takeWhile (· != ';')) ++
        jsonEscape (l.dropWhile (· != ';')) := by
      rw [← jsonEscape_append, List.append_assoc, hsplit]
    calc
      cutParams (jsonEscape (d ++ l) ++ (e₁ ++ '/' :: e₂)) =
          cutParams ((jsonEscape (d ++ l) ++ e₁) ++ '/' :: e₂) := by rw [List.append_assoc]
      _ = (jsonEscape (d ++ l) ++ e₁) ++ '/' :: cutParams e₂ := cutParams_append _ _
      _ = jsonEscape (d ++ l.takeWhile (· != ';')) ++
          (jsonEscape (l.dropWhile (· != ';')) ++ e₁ ++ '/' :: cutParams e₂) := by
        rw [hescape, List.append_assoc, List.append_assoc, List.append_assoc]
  · intro c hc
    cases hdrop : l.dropWhile (· != ';') with
    | nil =>
        rw [hdrop] at hc
        cases e₁ with
        | nil =>
            have hback := hgrowth '/' rfl
            exact absurd hback (by decide)
        | cons a e₁ => exact .inr (hgrowth c (by simpa using hc))
    | cons a l' =>
        have hstop := List.head?_dropWhile_not (· != ';') l
        rw [hdrop] at hstop
        obtain rfl : a = ';' := by simpa using hstop
        rw [hdrop, jsonEscape_cons_plain (by decide)] at hc
        exact .inl (by simpa using hc.symm)

/-- How the part that is read changes: it is escaped, and may grow at its end. -/
theorem cutParams_jsonEscape {q growth : Str}
    (hgrowth : ∀ c, growth.head? = some c → c = '\\') : ∃ more,
    cutParams (jsonEscape q ++ growth) = jsonEscape (cutParams q) ++ more ∧
      (more = [] ↔ growth = [] ∨ (';' ∈ q.rtakeWhile (· != '/') ∧ '/' ∉ growth)) ∧
      ∀ c, more.head? = some c → c = ';' ∨ c = '\\' := by
  obtain ⟨d, l, rfl, hd, hl, hlast⟩ := exists_segments q
  rw [← hlast, cutParams_append_segment hd hl]
  by_cases hslash : '/' ∈ growth
  · obtain ⟨more, hread, hmore, hhead⟩ := cutParams_jsonEscape_of_slash hslash hgrowth
    refine ⟨more, hread, ?_, hhead⟩
    have hne : growth ≠ [] := List.ne_nil_of_mem hslash
    simp [hmore, hne, hslash]
  · have hl' : '/' ∉ jsonEscape l ++ growth := by
      rw [List.mem_append, mem_jsonEscape_iff transparent_slash]
      exact not_or.mpr ⟨hl, hslash⟩
    rw [jsonEscape_append, List.append_assoc, cutParams_append_segment (getLast_jsonEscape hd) hl']
    by_cases hsemi : ';' ∈ l
    · refine ⟨[], ?_, by simp [hsemi, hslash], by simp⟩
      have hstop : ∃ c ∈ jsonEscape l, (c != ';') = false :=
        ⟨';', (mem_jsonEscape_iff transparent_semicolon).mpr hsemi, by simp⟩
      calc
        jsonEscape d ++ (jsonEscape l ++ growth).takeWhile (· != ';') =
            jsonEscape d ++ jsonEscape (l.takeWhile (· != ';')) := by
          rw [takeWhile_append_of_stop hstop, takeWhile_jsonEscape transparent_semicolon]
        _ = jsonEscape (d ++ l.takeWhile (· != ';')) ++ [] := by
          rw [jsonEscape_append, List.append_nil]
    · have hkeep : l.takeWhile (· != ';') = l := by
        rw [List.takeWhile_eq_self_iff]
        intro c hc
        simp only [bne_iff_ne, ne_eq]
        rintro rfl
        exact hsemi hc
      have hall : ∀ c ∈ jsonEscape l, (c != ';') = true := by
        rw [← List.takeWhile_eq_self_iff, takeWhile_jsonEscape transparent_semicolon, hkeep]
      refine ⟨growth.takeWhile (· != ';'), ?_, ?_, ?_⟩
      · calc
          jsonEscape d ++ (jsonEscape l ++ growth).takeWhile (· != ';') =
              jsonEscape d ++ (jsonEscape l ++ growth.takeWhile (· != ';')) := by
            rw [List.takeWhile_append_of_pos hall]
          _ = jsonEscape (d ++ l.takeWhile (· != ';')) ++ growth.takeWhile (· != ';') := by
            rw [hkeep, jsonEscape_append, List.append_assoc]
      · cases growth with
        | nil => simp
        | cons c growth =>
            obtain rfl := hgrowth c rfl
            simp [hsemi]
      · intro c hc
        cases growth with
        | nil => simp at hc
        | cons a growth =>
            obtain rfl := hgrowth a rfl
            exact .inr (by simpa using hc.symm)

theorem head?_jsonRun {after : Str} (hafter : ∀ c, after.head? = some c → isUrlChar c = false) :
    ∀ c, (jsonRun after).head? = some c → c = '\\' := by
  intro c hc
  cases after with
  | nil => simp [jsonRun] at hc
  | cons a after =>
      have ha := hafter a rfl
      rw [← takeWhile_isUrlChar_jsonEscape, jsonEscape_cons] at hc
      cases hesc : isEscaped a with
      | true =>
          rw [jsonEscapeChar, hesc, if_pos rfl, List.cons_append] at hc
          simpa [show isUrlChar '\\' = true by decide] using hc.symm
      | false =>
          rw [jsonEscapeChar, hesc, if_neg (by simp), List.singleton_append,
            List.takeWhile_cons_of_neg (by simp [ha])] at hc
          simp at hc

theorem head?_pathGrowth (rest : Str) {swallowed : Str}
    (h : ∀ c, swallowed.head? = some c → c = '\\') :
    ∀ c, (pathGrowth rest swallowed).head? = some c → c = '\\' := by
  intro c hc
  unfold pathGrowth at hc
  split_ifs at hc
  · simp at hc
  · cases swallowed with
    | nil => simp at hc
    | cons a swallowed =>
        obtain rfl := h a rfl
        simpa [isPathEnd] using hc.symm

/-- The path of an address in the escaped text, against the path it had. -/
theorem pathOf_jsonEscape {rest swallowed : Str}
    (hends : (∃ c ∈ rest, endsNetloc c = true) ∨ swallowed = [])
    (hhead : ∀ c, swallowed.head? = some c → c = '\\') : ∃ more,
    pathOf (jsonEscape rest ++ swallowed) = jsonEscape (pathOf rest) ++ more ∧
      (KeepsPath rest swallowed ↔ (∀ c ∈ pathOf rest, isEscaped c = false) ∧ more = []) ∧
      ∀ c, more.head? = some c → c = ';' ∨ c = '\\' := by
  obtain ⟨more, hmore, hnil, hheadMore⟩ :=
    cutParams_jsonEscape (q := rawPathOf rest) (head?_pathGrowth rest hhead)
  refine ⟨more, ?_, ?_, hheadMore⟩
  · rw [pathOf, rawPathOf_jsonEscape hends]
    exact hmore
  · rw [KeepsPath, hnil]

end StorageReconciler
