import StorageReconciler.Foundations.OrderedDict

/-!
# Computations that may fail

When a sequence of computations succeeds, and what a dictionary holds that is
filled key by key with the results of one.
-/

namespace StorageReconciler.Fallible

variable {ε α β : Type}

theorem bind_eq_ok_iff {e : Except ε α} {f : α → Except ε β} {b : β} :
    (e >>= f) = .ok b ↔ ∃ a, e = .ok a ∧ f a = .ok b := by
  cases e with
  | error e => simp [bind, Except.bind]
  | ok a => simp [bind, Except.bind]

theorem forM_eq_ok_iff {l : List α} {f : α → Except ε Unit} :
    l.forM f = .ok () ↔ ∀ x ∈ l, f x = .ok () := by
  induction l with
  | nil => simp [List.forM, pure, Except.pure]
  | cons x l ih =>
      rw [List.forM, bind_eq_ok_iff]
      constructor
      · rintro ⟨_, hx, hl⟩ y hy
        rcases List.mem_cons.mp hy with rfl | hy
        · exact hx
        · exact ih.mp hl y hy
      · intro h
        exact ⟨(), h x List.mem_cons_self, ih.mpr fun y hy ↦ h y (List.mem_cons_of_mem x hy)⟩

theorem map_of_mapM_eq_ok {α : Type*} {f : α → Except ε β} {g : α → β}
    (hf : ∀ a b, f a = .ok b → b = g a) {l : List α} {r : List β} (h : l.mapM f = .ok r) :
    r = l.map g := by
  induction l generalizing r with
  | nil => exact (Except.ok.inj h).symm
  | cons a l ih =>
      rw [List.mapM_cons] at h
      obtain ⟨b, hb, h⟩ := bind_eq_ok_iff.mp h
      obtain ⟨bs, hbs, hpure⟩ := bind_eq_ok_iff.mp h
      obtain rfl := Except.ok.inj hpure
      rw [hf a b hb, ih hbs, List.map_cons]

theorem mem_of_mapM_eq_some {f : α → Option β} {l : List α} {r : List β}
    (h : l.mapM f = some r) {b : β} : b ∈ r ↔ ∃ a ∈ l, f a = some b := by
  induction l generalizing r with
  | nil =>
      obtain rfl : [] = r := Option.some.inj h
      simp
  | cons a l ih =>
      rw [List.mapM_cons] at h
      obtain ⟨b', hb', h⟩ := Option.bind_eq_some_iff.mp h
      obtain ⟨r', hr', hpure⟩ := Option.bind_eq_some_iff.mp h
      obtain rfl : b' :: r' = r := Option.some.inj hpure
      rw [List.mem_cons, ih hr']
      simp [hb', eq_comm]

/-- What is encoded, each alone, can be decoded again. -/
theorem mapM_of_mapM_eq_some {f : β → Option α} {g : α → Except ε β} {l : List β} {r : List α}
    (hg : ∀ b ∈ l, ∀ a, f b = some a → g a = .ok b) (h : l.mapM f = some r) :
    r.mapM g = .ok l := by
  induction l generalizing r with
  | nil =>
      obtain rfl : [] = r := Option.some.inj h
      rfl
  | cons b l ih =>
      rw [List.mapM_cons] at h
      obtain ⟨a, ha, h⟩ := Option.bind_eq_some_iff.mp h
      obtain ⟨r', hr', hpure⟩ := Option.bind_eq_some_iff.mp h
      obtain rfl : a :: r' = r := Option.some.inj hpure
      rw [List.mapM_cons, hg b List.mem_cons_self a ha,
        ih (fun b' hb' ↦ hg b' (List.mem_cons_of_mem b hb')) hr']
      rfl

theorem mapM_map_eq {γ : Type*} {f : γ → α} {g : α → Except ε β} {k : γ → β} {l : List γ}
    (hg : ∀ c ∈ l, g (f c) = .ok (k c)) : (l.map f).mapM g = .ok (l.map k) := by
  induction l with
  | nil => rfl
  | cons c l ih =>
      rw [List.map_cons, List.mapM_cons, hg c List.mem_cons_self,
        ih fun c' hc' ↦ hg c' (List.mem_cons_of_mem c hc')]
      rfl

theorem mapM_map_of_forall {f : β → α} {g : α → Except ε β} {l : List β}
    (hg : ∀ b ∈ l, g (f b) = .ok b) : (l.map f).mapM g = .ok l := by
  have hmap := mapM_map_eq (k := id) hg
  rwa [List.map_id] at hmap

section Fill

variable [DecidableEq α]

/-- The keys one by one, each with the value computed for it. -/
def fill (f : α → Except ε β) (keys : List α) (d : OrderedDict α β) : Except ε (OrderedDict α β) :=
  keys.foldlM (fun d k ↦ do return d.insert k (← f k)) d

theorem fill_cons_eq_ok_iff {f : α → Except ε β} {k : α} {keys : List α}
    {d d' : OrderedDict α β} :
    fill f (k :: keys) d = .ok d' ↔ ∃ v, f k = .ok v ∧ fill f keys (d.insert k v) = .ok d' := by
  rw [fill, List.foldlM_cons, bind_eq_ok_iff]
  constructor
  · rintro ⟨d₁, hd₁, hd'⟩
    obtain ⟨v, hv, hpure⟩ := bind_eq_ok_iff.mp hd₁
    obtain rfl := Except.ok.inj hpure
    exact ⟨v, hv, hd'⟩
  · rintro ⟨v, hv, hd'⟩
    exact ⟨d.insert k v, bind_eq_ok_iff.mpr ⟨v, hv, rfl⟩, hd'⟩

theorem get?_of_fill {f : α → Except ε β} {keys : List α} {d d' : OrderedDict α β}
    (h : fill f keys d = .ok d') {k : α} :
    (k ∈ keys → ∃ v, f k = .ok v ∧ d'.get? k = some v) ∧ (k ∉ keys → d'.get? k = d.get? k) := by
  induction keys generalizing d with
  | nil =>
      obtain rfl := Except.ok.inj h
      exact ⟨fun hk ↦ absurd hk List.not_mem_nil, fun _ ↦ rfl⟩
  | cons k' keys ih =>
      obtain ⟨v, hv, hrest⟩ := fill_cons_eq_ok_iff.mp h
      obtain ⟨hin, hout⟩ := ih hrest
      constructor
      · intro hk
        by_cases hmem : k ∈ keys
        · exact hin hmem
        · obtain rfl : k = k' := by simpa [hmem] using hk
          exact ⟨v, hv, by rw [hout hmem, OrderedDict.get?_insert, if_pos rfl]⟩
      · intro hk
        obtain ⟨hne, hmem⟩ := List.ne_and_not_mem_of_not_mem_cons hk
        rw [hout hmem, OrderedDict.get?_insert, if_neg hne]

theorem exists_fill {f : α → Except ε β} {keys : List α} (h : ∀ k ∈ keys, ∃ v, f k = .ok v)
    (d : OrderedDict α β) : ∃ d', fill f keys d = .ok d' := by
  induction keys generalizing d with
  | nil => exact ⟨d, rfl⟩
  | cons k keys ih =>
      obtain ⟨v, hv⟩ := h k List.mem_cons_self
      obtain ⟨d', hd'⟩ := ih (fun k' hk' ↦ h k' (List.mem_cons_of_mem k hk')) (d.insert k v)
      exact ⟨d', fill_cons_eq_ok_iff.mpr ⟨v, hv, hd'⟩⟩

end Fill

end StorageReconciler.Fallible
