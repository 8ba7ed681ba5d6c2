import Mathlib.Data.List.Sort
import Mathlib.Order.WithBot
import Mathlib.Tactic.Common

/-!
# Keyset paging

A table is read page by page in the order of a key.  Each query returns the
first rows behind the cursor, which is the key of the last row read, and a page
that is not full ends the reading.  A missing key sorts first and moves no
cursor, and the server breaks ties as it likes.

An unchanging table is read completely, whatever the ties, exactly when no page
boundary falls between equal keys or behind a missing one.
-/

namespace StorageReconciler.KeysetPaging

variable {ρ κ : Type*} [LinearOrder κ] (key : ρ → WithBot κ)

/-- The rows behind the cursor. -/
def eligible (last : WithBot κ) (rows : List ρ) : List ρ :=
  rows.filter fun r ↦ decide (last = ⊥ ∨ last < key r)

/-- The key of the last row read. -/
def cursor (last : WithBot κ) (rows : List ρ) : WithBot κ := (rows.getLast?.map key).getD last

/-- The order in which each query returns the rows it finds. -/
structure TieOrder where
  sort : ℕ → List ρ → List ρ
  perm : ∀ i rows, (sort i rows).Perm rows
  sorted : ∀ i rows, (sort i rows).Pairwise (key · ≤ key ·)

def page (order : TieOrder key) (n i : ℕ) (last : WithBot κ) (rows : List ρ) : List ρ :=
  (order.sort i (eligible key last rows)).take n

/-- The rows that the queries from the `i`-th on return, `fuel` queries at most. -/
def fetchRows (order : TieOrder key) (n : ℕ) (snapshot : ℕ → List ρ) :
    ℕ → ℕ → WithBot κ → List ρ
  | 0, _, _ => []
  | fuel + 1, i, last =>
      let rows := page key order n i last (snapshot i)
      rows ++ if rows.length = n then
        fetchRows order n snapshot fuel (i + 1) (cursor key last rows)
      else []

/-- The reading ends within `fuel` queries. -/
def fetchEnds (order : TieOrder key) (n : ℕ) (snapshot : ℕ → List ρ) :
    ℕ → ℕ → WithBot κ → Prop
  | 0, _, _ => False
  | fuel + 1, i, last =>
      let rows := page key order n i last (snapshot i)
      rows.length = n → fetchEnds order n snapshot fuel (i + 1) (cursor key last rows)

/-- Rows with equal keys stay in the order of the table. -/
def TieOrder.stable : TieOrder key where
  sort _ rows := rows.insertionSort (key · ≤ key ·)
  perm _ rows := List.perm_insertionSort _ rows
  sorted _ rows := by
    have : Std.Total (fun a b : ρ ↦ key a ≤ key b) := ⟨fun a b ↦ le_total (key a) (key b)⟩
    have : IsTrans ρ (fun a b : ρ ↦ key a ≤ key b) := ⟨fun _ _ _ ↦ le_trans⟩
    exact List.pairwise_insertionSort _ rows

def sortedKeys (rows : List ρ) : List (WithBot κ) := (rows.map key).insertionSort (· ≤ ·)

/-- No page boundary falls between equal keys or behind a missing key. -/
def PagesApart (n : ℕ) (keys : List (WithBot κ)) : Prop :=
  ∀ j, 0 < j → ∀ a b, keys[j * n - 1]? = some a → keys[j * n]? = some b → a ≠ ⊥ ∧ a ≠ b

/-! ## One page -/

variable {key}

theorem mem_eligible {last : WithBot κ} {rows : List ρ} {r : ρ} :
    r ∈ eligible key last rows ↔ r ∈ rows ∧ (last = ⊥ ∨ last < key r) := by
  simp [eligible]

theorem TieOrder.map_key_sort (order : TieOrder key) (i : ℕ) (rows : List ρ) :
    (order.sort i rows).map key = sortedKeys key rows := by
  have hsorted : ((order.sort i rows).map key).Pairwise (· ≤ ·) :=
    List.pairwise_map.mpr (order.sorted i rows)
  have hperm : ((order.sort i rows).map key).Perm (sortedKeys key rows) :=
    ((order.perm i rows).map key).trans (List.perm_insertionSort _ _).symm
  exact hperm.eq_of_pairwise' hsorted (List.pairwise_insertionSort (· ≤ ·) _)

theorem length_sortedKeys (rows : List ρ) : (sortedKeys key rows).length = rows.length := by
  simp [sortedKeys]

theorem sortedKeys_congr {rows rows' : List ρ} (h : rows.Perm rows') :
    sortedKeys key rows = sortedKeys key rows' := by
  have hperm : (sortedKeys key rows).Perm (sortedKeys key rows') :=
    (List.perm_insertionSort _ _).trans ((h.map key).trans (List.perm_insertionSort _ _).symm)
  exact hperm.eq_of_pairwise' (List.pairwise_insertionSort (· ≤ ·) _)
    (List.pairwise_insertionSort (· ≤ ·) _)

theorem sortedKeys_of_pairwise {rows : List ρ} (h : rows.Pairwise (key · ≤ key ·)) :
    sortedKeys key rows = rows.map key :=
  List.Pairwise.insertionSort_eq (List.pairwise_map.mpr h)

section Page

variable {order : TieOrder key} {n i : ℕ} {last : WithBot κ} {rows : List ρ}

theorem mem_of_mem_page {r : ρ} (h : r ∈ page key order n i last rows) :
    r ∈ eligible key last rows :=
  (order.perm i _).mem_iff.mp (List.mem_of_mem_take h)

variable (last) in
omit [LinearOrder κ] in
theorem cursor_mem {page : List ρ} (hne : page ≠ []) :
    ∃ r ∈ page, cursor key last page = key r := by
  refine ⟨page.getLast hne, List.getLast_mem hne, ?_⟩
  simp [cursor, List.getLast?_eq_some_getLast hne]

theorem le_cursor_page : last ≤ cursor key last (page key order n i last rows) := by
  by_cases hne : page key order n i last rows = []
  · simp [cursor, hne]
  · obtain ⟨r, hr, hcursor⟩ := cursor_mem last hne
    rw [hcursor]
    rcases (mem_eligible.mp (mem_of_mem_page hr)).2 with rfl | hlt
    · exact bot_le
    · exact hlt.le

theorem lt_key_of_mem_fetchRows {snapshot : ℕ → List ρ} {fuel : ℕ} {r : ρ} (hlast : last ≠ ⊥)
    (h : r ∈ fetchRows key order n snapshot fuel i last) : last < key r := by
  induction fuel generalizing i last with
  | zero => exact absurd h List.not_mem_nil
  | succ fuel ih =>
      rw [fetchRows, List.mem_append] at h
      rcases h with hpage | hrest
      · exact (mem_eligible.mp (mem_of_mem_page hpage)).2.resolve_left hlast
      · split_ifs at hrest
        · have hle : last ≤ cursor key last (page key order n i last (snapshot i)) :=
            le_cursor_page
          have hbot : cursor key last (page key order n i last (snapshot i)) ≠ ⊥ :=
            ((bot_lt_iff_ne_bot.mpr hlast).trans_le hle).ne'
          exact hle.trans_lt (ih hbot hrest)
        · exact absurd hrest List.not_mem_nil

end Page

/-! ## Reading a table that changes -/

section Changing

variable {order : TieOrder key} {n : ℕ} {snapshot : ℕ → List ρ}

theorem fetchRows_eq_of_ends {fuel fuel' i : ℕ} {last : WithBot κ}
    (h : fetchEnds key order n snapshot fuel i last)
    (h' : fetchEnds key order n snapshot fuel' i last) :
    fetchRows key order n snapshot fuel i last = fetchRows key order n snapshot fuel' i last := by
  induction fuel generalizing fuel' i last with
  | zero => exact absurd h id
  | succ fuel ih =>
      cases fuel' with
      | zero => exact absurd h' id
      | succ fuel' =>
          rw [fetchRows, fetchRows]
          by_cases hfull : (page key order n i last (snapshot i)).length = n
          · rw [if_pos hfull, if_pos hfull, ih (h hfull) (h' hfull)]
          · rw [if_neg hfull, if_neg hfull]

theorem exists_mem_fetchRows_of_stable {k : WithBot κ} (hn : 0 < n)
    (hstable : ∀ i, ∃ r ∈ snapshot i, key r = k) {fuel i : ℕ} {last : WithBot κ}
    (hends : fetchEnds key order n snapshot fuel i last) (hlast : last = ⊥ ∨ last < k) :
    ∃ j, ∃ r ∈ snapshot j, key r = k ∧ r ∈ fetchRows key order n snapshot fuel i last := by
  induction fuel generalizing i last with
  | zero => exact absurd hends id
  | succ fuel ih =>
      obtain ⟨r, hr, rfl⟩ := hstable i
      have heligible : r ∈ order.sort i (eligible key last (snapshot i)) :=
        (order.perm i _).mem_iff.mpr (mem_eligible.mpr ⟨hr, hlast⟩)
      have hsub : ∀ x ∈ page key order n i last (snapshot i), x ∈ snapshot i := fun x hx ↦
        (mem_eligible.mp (mem_of_mem_page hx)).1
      have hread : ∀ x ∈ page key order n i last (snapshot i),
          x ∈ fetchRows key order n snapshot (fuel + 1) i last := by
        intro x hx
        rw [fetchRows, List.mem_append]
        exact .inl hx
      rw [← List.take_append_drop n (order.sort i _), List.mem_append] at heligible
      rcases heligible with hpage | hbehind
      · exact ⟨i, r, hr, rfl, hread r hpage⟩
      · -- the page is full, and its keys are at most the one sought
        have hlen : n < (order.sort i (eligible key last (snapshot i))).length := by
          by_contra hle
          rw [List.drop_eq_nil_of_le (not_lt.mp hle)] at hbehind
          exact absurd hbehind List.not_mem_nil
        have hfull : (page key order n i last (snapshot i)).length = n := by
          rw [page, List.length_take]
          exact min_eq_left hlen.le
        have hne : page key order n i last (snapshot i) ≠ [] :=
          List.ne_nil_of_length_pos (by omega)
        obtain ⟨x, hx, hcursor⟩ := cursor_mem last hne
        have hpairwise := order.sorted i (eligible key last (snapshot i))
        rw [← List.take_append_drop n (order.sort i _)] at hpairwise
        have hle : key x ≤ key r := (List.pairwise_append.mp hpairwise).2.2 x hx r hbehind
        rcases hle.eq_or_lt with heq | hlt
        · exact ⟨i, x, hsub x hx, heq, hread x hx⟩
        · obtain ⟨j, y, hy, hkey, hmem⟩ := ih (hends hfull) (.inr (hcursor ▸ hlt))
          refine ⟨j, y, hy, hkey, ?_⟩
          rw [fetchRows, List.mem_append]
          right
          rwa [if_pos hfull]

end Changing

/-! ## Page boundaries -/

theorem pagesApart_of_length_le {n : ℕ} {keys : List (WithBot κ)} (h : keys.length ≤ n) :
    PagesApart n keys := by
  intro j hj a b _ hb
  have hlt := (List.getElem?_eq_some_iff.mp hb).1
  have hle : n ≤ j * n := Nat.le_mul_of_pos_left n hj
  omega

omit [LinearOrder κ] in
theorem pagesApart_of_nodup {n : ℕ} {keys : List (WithBot κ)} (hn : 0 < n) (hnodup : keys.Nodup)
    (hbot : ⊥ ∉ keys) : PagesApart n keys := by
  intro j hj a b ha hb
  refine ⟨fun h ↦ hbot (h ▸ List.mem_of_getElem? ha), ?_⟩
  rintro rfl
  have hpos : 0 < j * n := Nat.mul_pos hj hn
  obtain ⟨hlt, ha⟩ := List.getElem?_eq_some_iff.mp ha
  obtain ⟨hlt', hb⟩ := List.getElem?_eq_some_iff.mp hb
  have heq := hnodup.getElem_inj_iff.mp (ha.trans hb.symm)
  omega

omit [LinearOrder κ] in
theorem pagesApart_iff {n : ℕ} {keys : List (WithBot κ)} {a b : WithBot κ} (hn : 0 < n)
    (ha : keys[n - 1]? = some a) (hb : keys[n]? = some b) :
    PagesApart n keys ↔ (a ≠ ⊥ ∧ a ≠ b) ∧ PagesApart n (keys.drop n) := by
  have hshift : ∀ j, 0 < j → (j + 1) * n - 1 = n + (j * n - 1) ∧ (j + 1) * n = n + j * n := by
    intro j hj
    have hle : n ≤ j * n := Nat.le_mul_of_pos_left n hj
    rw [Nat.add_mul]
    omega
  constructor
  · intro h
    refine ⟨h 1 one_pos a b (by simpa using ha) (by simpa using hb), fun j hj x y hx hy ↦ ?_⟩
    rw [List.getElem?_drop] at hx hy
    exact h (j + 1) (Nat.succ_pos j) x y (by rwa [(hshift j hj).1]) (by rwa [(hshift j hj).2])
  · rintro ⟨hfirst, h⟩ j hj x y hx hy
    obtain ⟨j, rfl⟩ := Nat.exists_eq_succ_of_ne_zero hj.ne'
    by_cases hzero : j = 0
    · subst hzero
      simp only [Nat.succ_eq_add_one, Nat.zero_add, Nat.one_mul] at hx hy
      obtain rfl := Option.some.inj (ha.symm.trans hx)
      obtain rfl := Option.some.inj (hb.symm.trans hy)
      exact hfirst
    · have hpos := Nat.pos_of_ne_zero hzero
      apply h j hpos x y
      · rw [List.getElem?_drop, ← (hshift j hpos).1]
        exact hx
      · rw [List.getElem?_drop, ← (hshift j hpos).2]
        exact hy

section Boundary

variable {order : TieOrder key} {n i : ℕ} {last : WithBot κ} {rows : List ρ}

variable (order i) in
theorem exists_boundary (hn : 0 < n) (hlt : n < (eligible key last rows).length) :
    ∃ before r next after, order.sort i (eligible key last rows) = before ++ r :: next :: after ∧
      page key order n i last rows = before ++ [r] ∧ before.length + 1 = n ∧
      cursor key last (page key order n i last rows) = key r := by
  have hlen : (order.sort i (eligible key last rows)).length = (eligible key last rows).length :=
    (order.perm i _).length_eq
  generalize hs : order.sort i (eligible key last rows) = s at hlen
  have hr : n - 1 < s.length := by omega
  have hnext : n < s.length := by omega
  have hsplit : s = s.take (n - 1) ++ s[n - 1] :: s[n] :: s.drop (n + 1) := by
    have hdrop : s.drop (n - 1) = s[n - 1] :: s[n] :: s.drop (n + 1) := by
      rw [List.drop_eq_getElem_cons hr, Nat.sub_add_cancel hn, List.drop_eq_getElem_cons hnext]
    rw [← hdrop, List.take_append_drop]
  have hpage : page key order n i last rows = s.take (n - 1) ++ [s[n - 1]] := by
    rw [page, hs, ← List.take_succ_eq_append_getElem hr, Nat.sub_add_cancel hn]
  refine ⟨s.take (n - 1), s[n - 1], s[n], s.drop (n + 1), hsplit, hpage, ?_, ?_⟩
  · rw [List.length_take]
    omega
  · rw [hpage, cursor, List.getLast?_concat]
    rfl

theorem eligible_cursor_perm {before after : List ρ} {r next : ρ}
    (hsort : order.sort i (eligible key last rows) = before ++ r :: next :: after)
    (hbot : key r ≠ ⊥) (hlt : key r < key next) :
    (eligible key (key r) rows).Perm (next :: after) := by
  have hpairwise := order.sorted i (eligible key last rows)
  rw [hsort] at hpairwise
  obtain ⟨_, hrest, hcross⟩ := List.pairwise_append.mp hpairwise
  have hnextafter := (List.pairwise_cons.mp hrest).2
  have hmem : r ∈ eligible key last rows := by
    rw [← (order.perm i _).mem_iff, hsort]
    simp
  -- a row behind the new cursor is behind the old one
  have hnested : eligible key (key r) rows =
      (eligible key last rows).filter fun x ↦ decide (key r < key x) := by
    have hbehind : ∀ x : ρ, key r < key x → last = ⊥ ∨ last < key x := fun x hx ↦
      (mem_eligible.mp hmem).2.imp_right fun h ↦ h.trans hx
    rw [eligible, eligible, List.filter_filter]
    apply List.filter_congr
    intro x _
    by_cases hx : key r < key x
    · simp [hx, hbehind x hx]
    · simp [hx, hbot]
  have hfilter : (before ++ r :: next :: after).filter (fun x ↦ decide (key r < key x)) =
      next :: after := by
    have hhead : (before ++ [r]).filter (fun x ↦ decide (key r < key x)) = [] := by
      rw [List.filter_eq_nil_iff]
      intro x hx
      rcases List.mem_append.mp hx with hx | hx
      · simpa using hcross x hx r (by simp)
      · obtain rfl := List.mem_singleton.mp hx
        simp
    have htail : (next :: after).filter (fun x ↦ decide (key r < key x)) = next :: after := by
      rw [List.filter_eq_self]
      intro x hx
      rcases List.mem_cons.mp hx with rfl | hx
      · simpa using hlt
      · simpa using hlt.trans_le ((List.pairwise_cons.mp hnextafter).1 x hx)
    calc
      (before ++ r :: next :: after).filter (fun x ↦ decide (key r < key x)) =
          (before ++ [r]).filter (fun x ↦ decide (key r < key x)) ++
            (next :: after).filter (fun x ↦ decide (key r < key x)) := by
        rw [← List.filter_append, List.append_assoc, List.singleton_append]
      _ = next :: after := by rw [hhead, htail, List.nil_append]
  rw [hnested]
  exact ((order.perm i _).symm.filter _).trans (by rw [hsort, hfilter])

theorem length_eligible_cursor_lt {before after : List ρ} {r next : ρ}
    (hsort : order.sort i (eligible key last rows) = before ++ r :: next :: after)
    (hbot : key r ≠ ⊥) (hlt : key r < key next) :
    (eligible key (key r) rows).length < (eligible key last rows).length := by
  have htotal := (order.perm i (eligible key last rows)).length_eq
  rw [hsort] at htotal
  simp only [List.length_append, List.length_cons] at htotal
  rw [(eligible_cursor_perm hsort hbot hlt).length_eq, List.length_cons]
  omega

theorem sortedKeys_boundary {before after : List ρ} {r next : ρ}
    (hsort : order.sort i (eligible key last rows) = before ++ r :: next :: after) :
    sortedKeys key (eligible key last rows) =
      before.map key ++ key r :: key next :: after.map key := by
  rw [← order.map_key_sort i, hsort]
  simp

theorem pagesApart_boundary {before after : List ρ} {r next : ρ} (hn : before.length + 1 = n)
    (hsort : order.sort i (eligible key last rows) = before ++ r :: next :: after) :
    PagesApart n (sortedKeys key (eligible key last rows)) ↔
      (key r ≠ ⊥ ∧ key r < key next) ∧ PagesApart n (sortedKeys key (next :: after)) := by
  have hpairwise := order.sorted i (eligible key last rows)
  rw [hsort] at hpairwise
  obtain ⟨_, hrest, _⟩ := List.pairwise_append.mp hpairwise
  obtain ⟨hle, hafter⟩ := List.pairwise_cons.mp hrest
  have hkeys := sortedKeys_boundary hsort
  have htail : sortedKeys key (next :: after) = key next :: after.map key :=
    sortedKeys_of_pairwise hafter
  have hlt : key r < key next ↔ key r ≠ key next := by
    rw [lt_iff_le_and_ne]
    exact and_iff_right (hle next List.mem_cons_self)
  have hdrop : (before.map key ++ key r :: key next :: after.map key).drop (before.length + 1) =
      key next :: after.map key := by
    rw [List.append_cons]
    exact List.drop_left' (by simp)
  subst hn
  have hr : (before.map key ++ key r :: key next :: after.map key)[before.length + 1 - 1]? =
      some (key r) := by simp
  have hnext : (before.map key ++ key r :: key next :: after.map key)[before.length + 1]? =
      some (key next) := by simp
  rw [hkeys, htail, hlt, pagesApart_iff (Nat.succ_pos _) hr hnext, hdrop]

end Boundary

/-! ## The whole table -/

section Table

variable {n : ℕ} {rows : List ρ}

theorem page_eq_sort {order : TieOrder key} {i : ℕ} {last : WithBot κ}
    (h : (eligible key last rows).length ≤ n) :
    page key order n i last rows = order.sort i (eligible key last rows) :=
  List.take_of_length_le (by rwa [(order.perm i _).length_eq])

theorem mem_fetchRows_of_pagesApart (order : TieOrder key) (hn : 0 < n) {i : ℕ}
    {last : WithBot κ} (h : PagesApart n (sortedKeys key (eligible key last rows))) {r : ρ}
    (hr : r ∈ eligible key last rows) :
    ∃ fuel, r ∈ fetchRows key order n (fun _ ↦ rows) fuel i last := by
  induction hlen : (eligible key last rows).length using Nat.strong_induction_on
    generalizing i last with
  | _ m ih =>
      rw [← (order.perm i _).mem_iff] at hr
      by_cases hle : (eligible key last rows).length ≤ n
      · refine ⟨1, ?_⟩
        rw [fetchRows, List.mem_append, page_eq_sort hle]
        exact .inl hr
      · obtain ⟨before, x, next, after, hsort, hpage, hlength, hcursor⟩ :=
          exists_boundary order i hn (not_le.mp hle)
        obtain ⟨⟨hbot, hlt⟩, hrest⟩ := (pagesApart_boundary hlength hsort).mp h
        have hperm := eligible_cursor_perm hsort hbot hlt
        have hfull : (page key order n i last rows).length = n := by
          rw [hpage]
          simpa using hlength
        rw [hsort, List.append_cons, ← hpage, List.mem_append] at hr
        rcases hr with hr | hr
        · refine ⟨1, ?_⟩
          rw [fetchRows, List.mem_append]
          exact .inl hr
        · have hshort : (eligible key (key x) rows).length < m :=
            (length_eligible_cursor_lt hsort hbot hlt).trans_eq hlen
          obtain ⟨fuel, hfuel⟩ := ih _ hshort (i := i + 1) (by rwa [sortedKeys_congr hperm])
            (hperm.mem_iff.mpr hr) rfl
          refine ⟨fuel + 1, ?_⟩
          rw [fetchRows, List.mem_append]
          right
          rw [if_pos hfull, hcursor]
          exact hfuel

theorem mem_fetchRows_of_notMem_page {order : TieOrder key} {snapshot : ℕ → List ρ}
    {fuel i : ℕ} {last : WithBot κ} {r : ρ}
    (h : r ∈ fetchRows key order n snapshot fuel i last)
    (hpage : r ∉ page key order n i last (snapshot i)) :
    ∃ fuel, r ∈ fetchRows key order n snapshot fuel (i + 1)
      (cursor key last (page key order n i last (snapshot i))) := by
  cases fuel with
  | zero => exact absurd h List.not_mem_nil
  | succ fuel =>
      rw [fetchRows, List.mem_append] at h
      have hlater := h.resolve_left hpage
      split_ifs at hlater
      · exact ⟨fuel, hlater⟩
      · exact absurd hlater List.not_mem_nil

/-- Behind a missing key the same page is read for ever. -/
theorem mem_page_of_cursor_eq_bot {i j fuel : ℕ} {r : ρ}
    (hcursor : cursor key ⊥ (page key (.stable key) n i ⊥ rows) = ⊥)
    (h : r ∈ fetchRows key (.stable key) n (fun _ ↦ rows) fuel j ⊥) :
    r ∈ page key (.stable key) n i ⊥ rows := by
  have hsame : ∀ j, page key (.stable key) n j ⊥ rows = page key (.stable key) n i ⊥ rows :=
    fun _ ↦ rfl
  induction fuel generalizing j with
  | zero => exact absurd h List.not_mem_nil
  | succ fuel ih =>
      rw [fetchRows, List.mem_append, hsame j, hcursor] at h
      rcases h with h | h
      · exact h
      · split_ifs at h
        · exact ih h
        · exact absurd h List.not_mem_nil

/-- Under a fixed order, a boundary between equal keys loses the row behind it, and
one behind a missing key everything behind it. -/
theorem pagesApart_of_mem_fetchRows (hn : 0 < n) (hnodup : rows.Nodup) {i : ℕ}
    {last : WithBot κ}
    (h : ∀ r ∈ eligible key last rows,
      ∃ fuel, r ∈ fetchRows key (.stable key) n (fun _ ↦ rows) fuel i last) :
    PagesApart n (sortedKeys key (eligible key last rows)) := by
  induction hlen : (eligible key last rows).length using Nat.strong_induction_on
    generalizing i last with
  | _ m ih =>
      by_cases hle : (eligible key last rows).length ≤ n
      · exact pagesApart_of_length_le (by rwa [length_sortedKeys])
      · obtain ⟨before, x, next, after, hsort, hpage, hlength, hcursor⟩ :=
          exists_boundary (.stable key) i hn (not_le.mp hle)
        have hperm := (TieOrder.stable key).perm i (eligible key last rows)
        rw [hsort] at hperm
        have hdistinct : (before ++ x :: next :: after).Nodup :=
          hperm.nodup_iff.mpr (hnodup.filter _)
        rw [List.append_cons, List.nodup_append', ← hpage] at hdistinct
        have hbehind : ∀ r ∈ next :: after, r ∈ eligible key last rows ∧
            r ∉ page key (.stable key) n i last rows := by
          intro r hr
          exact ⟨hperm.mem_iff.mp (List.mem_append.mpr (.inr (List.mem_cons_of_mem x hr))),
            fun hmem ↦ hdistinct.2.2 hmem hr⟩
        have hx : x ∈ eligible key last rows := hperm.mem_iff.mp (by simp)
        have hnext := hbehind next List.mem_cons_self
        obtain ⟨fuel, hfuel⟩ := h next hnext.1
        have hbot : key x ≠ ⊥ := by
          intro hbot
          have hlast : last = ⊥ := by
            rcases (mem_eligible.mp hx).2 with hlast | hlt
            · exact hlast
            · exact absurd hlt (by simp [hbot])
          subst hlast
          exact hnext.2 (mem_page_of_cursor_eq_bot (hcursor.trans hbot) hfuel)
        have hrest : ∀ r ∈ next :: after, ∃ fuel,
            r ∈ fetchRows key (.stable key) n (fun _ ↦ rows) fuel (i + 1) (key x) := by
          intro r hr
          obtain ⟨fuel, hfuel⟩ := h r (hbehind r hr).1
          rw [← hcursor]
          exact mem_fetchRows_of_notMem_page hfuel (hbehind r hr).2
        have hlt : key x < key next := by
          obtain ⟨fuel, hfuel⟩ := hrest next List.mem_cons_self
          exact lt_key_of_mem_fetchRows hbot hfuel
        have hleft := eligible_cursor_perm hsort hbot hlt
        have hshort : (eligible key (key x) rows).length < m :=
          (length_eligible_cursor_lt hsort hbot hlt).trans_eq hlen
        have hpages := ih _ hshort (i := i + 1)
          (fun r hr ↦ hrest r (hleft.mem_iff.mp hr)) rfl
        rw [sortedKeys_congr hleft] at hpages
        exact (pagesApart_boundary hlength hsort).mpr ⟨⟨hbot, hlt⟩, hpages⟩

/-- Every row of an unchanging table is read under every order of ties exactly when
the page boundaries keep equal keys together and stand behind no missing one. -/
theorem reads_every_iff (hn : 0 < n) (hnodup : rows.Nodup) :
    (∀ order : TieOrder key, ∀ r ∈ rows,
      ∃ fuel, r ∈ fetchRows key order n (fun _ ↦ rows) fuel 0 ⊥) ↔
    PagesApart n (sortedKeys key rows) := by
  have hall : eligible key ⊥ rows = rows := by simp [eligible]
  constructor
  · intro h
    have hpages : PagesApart n (sortedKeys key (eligible key ⊥ rows)) :=
      pagesApart_of_mem_fetchRows hn hnodup fun r hr ↦ h (.stable key) r (by rwa [hall] at hr)
    rwa [hall] at hpages
  · intro h order r hr
    exact mem_fetchRows_of_pagesApart order hn (by rwa [hall]) (by rwa [hall])

end Table

/-! ## Distinct keys -/

/-- The query after which the reading ends. -/
def lastQuery (order : TieOrder key) (n : ℕ) (snapshot : ℕ → List ρ) : ℕ → ℕ → WithBot κ → ℕ
  | 0, i, _ => i
  | fuel + 1, i, last =>
      let rows := page key order n i last (snapshot i)
      if rows.length = n then lastQuery order n snapshot fuel (i + 1) (cursor key last rows)
      else i

section Distinct

variable {order : TieOrder key} {n i : ℕ} {last : WithBot κ} {rows : List ρ}

theorem nodup_page (h : rows.Nodup) : (page key order n i last rows).Nodup := by
  have hsorted : (order.sort i (eligible key last rows)).Nodup :=
    (order.perm i _).nodup_iff.mpr (h.filter _)
  exact hsorted.sublist (List.take_sublist _ _)

theorem pairwise_le_page : (page key order n i last rows).Pairwise (key · ≤ key ·) :=
  (order.sorted i _).sublist (List.take_sublist _ _)

theorem key_le_cursor_page {r : ρ} (hr : r ∈ page key order n i last rows) :
    key r ≤ cursor key last (page key order n i last rows) := by
  have hpairwise : (page key order n i last rows).Pairwise (key · ≤ key ·) := pairwise_le_page
  generalize page key order n i last rows = p at hr hpairwise
  rcases List.eq_nil_or_concat p with rfl | ⟨before, x, rfl⟩
  · exact absurd hr List.not_mem_nil
  · rw [List.concat_eq_append] at hr hpairwise ⊢
    have hcursor : cursor key last (before ++ [x]) = key x := by simp [cursor]
    rw [hcursor]
    rcases List.mem_append.mp hr with hbefore | hx
    · exact (List.pairwise_append.mp hpairwise).2.2 r hbefore x (List.mem_singleton.mpr rfl)
    · rw [List.mem_singleton.mp hx]

theorem cursor_page_ne_bot (hbot : ∀ r ∈ rows, key r ≠ ⊥)
    (hne : page key order n i last rows ≠ []) :
    cursor key last (page key order n i last rows) ≠ ⊥ := by
  obtain ⟨x, hx, hcursor⟩ := cursor_mem last hne
  rw [hcursor]
  exact hbot x (mem_eligible.mp (mem_of_mem_page hx)).1

theorem key_lt_of_mem_page {snapshot : ℕ → List ρ} {fuel : ℕ} {x y : ρ}
    (hcursor : cursor key last (page key order n i last rows) ≠ ⊥)
    (hx : x ∈ page key order n i last rows)
    (hy : y ∈ fetchRows key order n snapshot fuel (i + 1)
      (cursor key last (page key order n i last rows))) : key x < key y :=
  (key_le_cursor_page hx).trans_lt (lt_key_of_mem_fetchRows hcursor hy)

/-- The table may change: as long as the keys of each state are distinct and none is
missing, what is read is in strict order. -/
theorem pairwise_lt_fetchRows {snapshot : ℕ → List ρ}
    (hnodup : ∀ j, ((snapshot j).map key).Nodup) (hbot : ∀ j, ∀ r ∈ snapshot j, key r ≠ ⊥)
    (fuel i : ℕ) (last : WithBot κ) :
    (fetchRows key order n snapshot fuel i last).Pairwise (key · < key ·) := by
  induction fuel generalizing i last with
  | zero => exact List.Pairwise.nil
  | succ fuel ih =>
      have hpage : (page key order n i last (snapshot i)).Pairwise (key · < key ·) := by
        have hkeys : ((order.sort i (eligible key last (snapshot i))).map key).Nodup :=
          ((order.perm i _).map key).nodup_iff.mpr
            ((hnodup i).sublist (List.filter_sublist.map key))
        have hne : (page key order n i last (snapshot i)).Pairwise (key · ≠ key ·) :=
          (List.pairwise_map.mp hkeys).sublist (List.take_sublist _ _)
        exact (pairwise_le_page.and hne).imp fun h ↦ h.1.lt_of_ne h.2
      rw [fetchRows, List.pairwise_append]
      refine ⟨hpage, ?_, fun x hx y hy ↦ ?_⟩
      · split_ifs
        · exact ih _ _
        · exact List.Pairwise.nil
      · split_ifs at hy
        · have hcursor := cursor_page_ne_bot (hbot i) (List.ne_nil_of_mem hx)
          exact key_lt_of_mem_page hcursor hx hy
        · exact absurd hy List.not_mem_nil

theorem fetch_congr {snapshot : ℕ → List ρ} (snapshot' : ℕ → List ρ) {fuel : ℕ}
    (h : ∀ j, i ≤ j → j ≤ lastQuery order n snapshot fuel i last → snapshot j = snapshot' j) :
    fetchRows key order n snapshot fuel i last = fetchRows key order n snapshot' fuel i last ∧
      (fetchEnds key order n snapshot fuel i last ↔
        fetchEnds key order n snapshot' fuel i last) := by
  induction fuel generalizing i last with
  | zero => exact ⟨rfl, Iff.rfl⟩
  | succ fuel ih =>
      have hle : ∀ fuel i last, i ≤ lastQuery order n snapshot fuel i last := by
        intro fuel
        induction fuel with
        | zero => exact fun i _ ↦ le_refl i
        | succ fuel ih =>
            intro i last
            rw [lastQuery]
            split_ifs
            · exact (Nat.le_succ i).trans (ih _ _)
            · exact le_refl i
      have hhere : snapshot i = snapshot' i := h i (le_refl i) (hle _ _ _)
      rw [fetchRows, fetchRows, fetchEnds, fetchEnds, ← hhere]
      by_cases hfull : (page key order n i last (snapshot i)).length = n
      · have hafter : ∀ j, i + 1 ≤ j →
            j ≤ lastQuery order n snapshot fuel (i + 1)
              (cursor key last (page key order n i last (snapshot i))) →
            snapshot j = snapshot' j := by
          intro j hj hjle
          apply h j ((Nat.le_succ i).trans hj)
          rw [lastQuery]
          simpa [hfull] using hjle
        have hrest := ih hafter
        simp only [hfull, if_true, forall_const, hrest.1]
        exact ⟨trivial, hrest.2⟩
      · simp [hfull]

theorem exists_mem_fetchRows_of_stable_until {snapshot : ℕ → List ρ} {k : WithBot κ} {fuel : ℕ}
    (hn : 0 < n) (hstable : ∀ j ≤ lastQuery order n snapshot fuel 0 ⊥, ∃ r ∈ snapshot j, key r = k)
    (hends : fetchEnds key order n snapshot fuel 0 ⊥) :
    ∃ j ≤ lastQuery order n snapshot fuel 0 ⊥, ∃ r ∈ snapshot j, key r = k ∧
      r ∈ fetchRows key order n snapshot fuel 0 ⊥ := by
  have hsame : ∀ j, 0 ≤ j → j ≤ lastQuery order n snapshot fuel 0 ⊥ →
      snapshot j = snapshot (min j (lastQuery order n snapshot fuel 0 ⊥)) := by
    intro j _ hj
    rw [min_eq_left hj]
  obtain ⟨hrows, hends'⟩ := fetch_congr _ hsame
  obtain ⟨j, r, hr, hkey, hread⟩ := exists_mem_fetchRows_of_stable hn
    (fun j ↦ hstable _ (min_le_right j _)) (hends'.mp hends) (.inl rfl)
  exact ⟨_, min_le_right j _, r, hr, hkey, hrows ▸ hread⟩

end Distinct

/-! ## Missing keys -/

variable (key) in
def unkeyed (rows : List ρ) : List ρ := rows.filter fun r ↦ decide (key r = ⊥)

section Unkeyed

variable {order : TieOrder key} {n : ℕ} {rows : List ρ}

theorem cursor_page_eq_bot_iff (i : ℕ) :
    (page key order n i ⊥ rows).length = n ∧ cursor key ⊥ (page key order n i ⊥ rows) = ⊥ ↔
      n ≤ (unkeyed key rows).length := by
  have hall : eligible key ⊥ rows = rows := by simp [eligible]
  have hperm : (order.sort i (eligible key ⊥ rows)).Perm rows := by
    simpa only [hall] using order.perm i (eligible key ⊥ rows)
  have hcount : (unkeyed key (order.sort i (eligible key ⊥ rows))).length =
      (unkeyed key rows).length := (hperm.filter _).length_eq
  constructor
  · rintro ⟨hfull, hcursor⟩
    have hmissing : unkeyed key (page key order n i ⊥ rows) = page key order n i ⊥ rows := by
      rw [unkeyed, List.filter_eq_self]
      intro r hr
      simpa [hcursor] using key_le_cursor_page hr
    calc
      n = (unkeyed key (page key order n i ⊥ rows)).length := by rw [hmissing, hfull]
      _ ≤ (unkeyed key (order.sort i (eligible key ⊥ rows))).length :=
        ((List.take_sublist _ _).filter _).length_le
      _ = (unkeyed key rows).length := hcount
  · intro hle
    have hfull : (page key order n i ⊥ rows).length = n := by
      have hlong : n ≤ (order.sort i (eligible key ⊥ rows)).length :=
        hle.trans (hcount.symm.trans_le (List.length_filter_le _ _))
      rw [page, List.length_take]
      exact min_eq_left hlong
    refine ⟨hfull, ?_⟩
    by_contra hcursor
    have hne : page key order n i ⊥ rows ≠ [] := by
      intro hnil
      exact hcursor (by rw [hnil]; rfl)
    obtain ⟨x, hx, hkey⟩ := cursor_mem ⊥ hne
    have hxkey : key x ≠ ⊥ := fun hbot ↦ hcursor (hkey.trans hbot)
    have hpairwise := order.sorted i (eligible key ⊥ rows)
    -- a key on the page leaves no row without one behind it
    have hbehind : unkeyed key ((order.sort i (eligible key ⊥ rows)).drop n) = [] := by
      rw [unkeyed, List.filter_eq_nil_iff]
      intro y hy
      rw [← List.take_append_drop n (order.sort i _)] at hpairwise
      have hxy : key x ≤ key y := (List.pairwise_append.mp hpairwise).2.2 x hx y hy
      have hpos : ⊥ < key y := (bot_lt_iff_ne_bot.mpr hxkey).trans_le hxy
      simpa using hpos.ne'
    have hlt : (unkeyed key (page key order n i ⊥ rows)).length < n :=
      (List.length_filter_lt_length_iff_exists.mpr ⟨x, hx, by simpa using hxkey⟩).trans_eq hfull
    rw [← List.take_append_drop n (order.sort i _), unkeyed, List.filter_append] at hcount
    rw [unkeyed] at hbehind
    rw [hbehind, List.append_nil] at hcount
    exact absurd hle (not_le.mpr (hcount ▸ hlt))

theorem exists_fetchEnds_of_ne_bot (hn : 0 < n) {i : ℕ} {last : WithBot κ} (hlast : last ≠ ⊥) :
    ∃ fuel, fetchEnds key order n (fun _ ↦ rows) fuel i last := by
  induction hlen : (eligible key last rows).length using Nat.strong_induction_on
    generalizing i last with
  | _ m ih =>
      by_cases hfull : (page key order n i last rows).length = n
      · have hne : page key order n i last rows ≠ [] := List.ne_nil_of_length_pos (by omega)
        obtain ⟨x, hx, hcursor⟩ := cursor_mem last hne
        have hxrows := mem_eligible.mp (mem_of_mem_page hx)
        have hlt : last < key x := hxrows.2.resolve_left hlast
        have hfewer : (eligible key (key x) rows).length < (eligible key last rows).length := by
          have hnested : eligible key (key x) rows =
              (eligible key last rows).filter fun r ↦ decide (key x < key r) := by
            rw [eligible, eligible, List.filter_filter]
            apply List.filter_congr
            intro r _
            by_cases hr : key x < key r
            · simp [hr, hlt.trans hr]
            · simp [hr, hlt.ne_bot]
          rw [hnested]
          exact List.length_filter_lt_length_iff_exists.mpr
            ⟨x, mem_eligible.mpr hxrows, by simp⟩
        obtain ⟨fuel, hends⟩ := ih _ (hlen ▸ hfewer) (i := i + 1) hlt.ne_bot rfl
        exact ⟨fuel + 1, fun _ ↦ hcursor ▸ hends⟩
      · exact ⟨1, fun h ↦ absurd h hfull⟩

/-- The reading of an unchanging table ends exactly when the rows without a key do
not fill a page. -/
theorem exists_fetchEnds_iff :
    (∃ fuel, fetchEnds key order n (fun _ ↦ rows) fuel 0 ⊥) ↔ (unkeyed key rows).length < n := by
  constructor
  · rintro ⟨fuel, hends⟩
    by_contra hle
    have hnever : ∀ fuel i, ¬fetchEnds key order n (fun _ ↦ rows) fuel i ⊥ := by
      intro fuel
      induction fuel with
      | zero => exact fun i ↦ id
      | succ fuel ih =>
          intro i hends
          obtain ⟨hfull, hcursor⟩ : (page key order n i ⊥ rows).length = n ∧
              cursor key ⊥ (page key order n i ⊥ rows) = ⊥ :=
            (cursor_page_eq_bot_iff i).mpr (not_lt.mp hle)
          have hnext := hends hfull
          rw [hcursor] at hnext
          exact ih (i + 1) hnext
    exact hnever fuel 0 hends
  · intro hlt
    by_cases hfull : (page key order n 0 ⊥ rows).length = n
    · have hcursor : cursor key ⊥ (page key order n 0 ⊥ rows) ≠ ⊥ := fun hbot ↦
        absurd hlt (not_lt.mpr ((cursor_page_eq_bot_iff 0).mp ⟨hfull, hbot⟩))
      obtain ⟨fuel, hends⟩ : ∃ fuel, fetchEnds key order n (fun _ ↦ rows) fuel 1
          (cursor key ⊥ (page key order n 0 ⊥ rows)) :=
        exists_fetchEnds_of_ne_bot (Nat.zero_lt_of_lt hlt) hcursor
      exact ⟨fuel + 1, fun _ ↦ hends⟩
    · exact ⟨1, fun h ↦ absurd h hfull⟩

theorem nodup_fetchRows (hnodup : rows.Nodup) {fuel i : ℕ} {last : WithBot κ}
    (hcursor : (page key order n i last rows).length = n →
      cursor key last (page key order n i last rows) ≠ ⊥) :
    (fetchRows key order n (fun _ ↦ rows) fuel i last).Nodup := by
  induction fuel generalizing i last with
  | zero => exact List.nodup_nil
  | succ fuel ih =>
      rw [fetchRows]
      split_ifs with hfull
      · have hmoved := hcursor hfull
        have hlater : (fetchRows key order n (fun _ ↦ rows) fuel (i + 1)
            (cursor key last (page key order n i last rows))).Nodup :=
          ih fun _ ↦ ((bot_lt_iff_ne_bot.mpr hmoved).trans_le le_cursor_page).ne'
        rw [List.nodup_append']
        refine ⟨nodup_page hnodup, hlater, fun x hx hx' ↦ ?_⟩
        exact absurd (key_lt_of_mem_page hmoved hx hx') (lt_irrefl _)
      · rw [List.append_nil]
        exact nodup_page hnodup

end Unkeyed

end StorageReconciler.KeysetPaging
