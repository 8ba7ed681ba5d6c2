import Mathlib.Tactic.Common

/-!
# Paging by tokens

A server delivers a list page by page.  Each reply but the last names the token
to ask for the next page with, and any call may fail instead, which ends the
reading with its error.
-/

namespace StorageReconciler.TokenPaging

variable {τ α ε : Type*}

structure Page (τ α : Type*) where
  items : List α
  next : Option τ

/-- The items from a token on, `fuel` calls at most. -/
def collect (call : Option τ → Except ε (Page τ α)) : ℕ → Option τ → Option (Except ε (List α))
  | 0, _ => none
  | fuel + 1, token =>
      match call token with
      | .error e => some (.error e)
      | .ok page =>
          match page.next with
          | none => some (.ok page.items)
          | some next => (collect call fuel (some next)).map (Except.map (page.items ++ ·))

/-- From the token on, the replies deliver exactly the items. -/
inductive Delivers (reply : Option τ → Page τ α) : Option τ → List α → Prop
  | last {token} (h : (reply token).next = none) : Delivers reply token (reply token).items
  | more {token next rest} (h : (reply token).next = some next)
      (hrest : Delivers reply (some next) rest) :
      Delivers reply token ((reply token).items ++ rest)

section Collect

variable {call : Option τ → Except ε (Page τ α)} {fuel : ℕ} {token : Option τ}

theorem collect_of_error {e : ε} (h : call token = .error e) :
    collect call (fuel + 1) token = some (.error e) := by
  rw [collect, h]

theorem collect_of_last {page : Page τ α} (h : call token = .ok page) (hnext : page.next = none) :
    collect call (fuel + 1) token = some (.ok page.items) := by
  simp only [collect, h, hnext]

theorem collect_of_next {page : Page τ α} {next : τ} (h : call token = .ok page)
    (hnext : page.next = some next) :
    collect call (fuel + 1) token =
      (collect call fuel (some next)).map (Except.map (page.items ++ ·)) := by
  simp only [collect, h, hnext]

end Collect

theorem Delivers.collect_ends {reply : Option τ → Page τ α} {token : Option τ} {items : List α}
    (h : Delivers reply token items) {call : Option τ → Except ε (Page τ α)}
    (hcall : ∀ token page, call token = .ok page → page = reply token) :
    ∃ fuel outcome, collect call fuel token = some outcome ∧
      ∀ read, outcome = .ok read → read = items := by
  induction h with
  | @last token hlast =>
      refine ⟨1, ?_⟩
      cases hreply : call token with
      | error e => exact ⟨_, collect_of_error hreply, fun read hread ↦ by cases hread⟩
      | ok page =>
          obtain rfl := hcall token page hreply
          exact ⟨_, collect_of_last hreply hlast, fun read hread ↦ (Except.ok.inj hread).symm⟩
  | @more token next rest hnext _ ih =>
      obtain ⟨fuel, outcome, houtcome, hread⟩ := ih
      refine ⟨fuel + 1, ?_⟩
      cases hreply : call token with
      | error e => exact ⟨_, collect_of_error hreply, fun read hread ↦ by cases hread⟩
      | ok page =>
          obtain rfl := hcall token page hreply
          rw [collect_of_next hreply hnext, houtcome]
          refine ⟨_, rfl, fun read hok ↦ ?_⟩
          cases outcome with
          | error e => cases hok
          | ok items =>
              rw [hread items rfl] at hok
              exact (Except.ok.inj hok).symm

theorem collect_succ {call : Option τ → Except ε (Page τ α)} {fuel : ℕ} {token : Option τ}
    {outcome : Except ε (List α)} (h : collect call fuel token = some outcome) :
    collect call (fuel + 1) token = some outcome := by
  induction fuel generalizing token outcome with
  | zero => cases h
  | succ fuel ih =>
      cases hreply : call token with
      | error e =>
          rw [collect_of_error hreply] at h ⊢
          exact h
      | ok page =>
          cases hnext : page.next with
          | none =>
              rw [collect_of_last hreply hnext] at h ⊢
              exact h
          | some next =>
              rw [collect_of_next hreply hnext, Option.map_eq_some_iff] at h ⊢
              obtain ⟨rest, hrest, rfl⟩ := h
              exact ⟨rest, ih hrest, rfl⟩

theorem collect_mono {call : Option τ → Except ε (Page τ α)} {fuel fuel' : ℕ} {token : Option τ}
    {outcome : Except ε (List α)} (h : collect call fuel token = some outcome)
    (hle : fuel ≤ fuel') : collect call fuel' token = some outcome := by
  induction hle with
  | refl => exact h
  | step _ ih => exact collect_succ ih

theorem collect_unique {call : Option τ → Except ε (Page τ α)} {fuel fuel' : ℕ}
    {token : Option τ} {outcome outcome' : Except ε (List α)}
    (h : collect call fuel token = some outcome)
    (h' : collect call fuel' token = some outcome') : outcome = outcome' := by
  have hmax := collect_mono h (Nat.le_max_left fuel fuel')
  have hmax' := collect_mono h' (Nat.le_max_right fuel fuel')
  exact Option.some.inj (hmax.symm.trans hmax')

end StorageReconciler.TokenPaging
