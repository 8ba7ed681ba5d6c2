import StorageReconciler.Foundations.PercentCoding

/-!
# Frames of a byte stream

A text arrives as UTF-8 in chunks of any size.  What was received is decoded, kept,
and cut wherever a blank line ends a frame.  The frames that a receiver finds do not
depend on where the chunks begin and end.
-/

namespace StorageReconciler.FrameStream

open Strings PercentCoding

/-! ## Cutting a text -/

/-- The text before and after the first blank line, which is two line breaks in a row. -/
def cut : Str → Option (Str × Str)
  | [] => none
  | c :: s =>
      if c = '\n' ∧ s.head? = some '\n' then some ([], s.tail)
      else (cut s).map fun (frame, rest) ↦ (c :: frame, rest)

/-- Cuts as long as there is a blank line; each frame takes two characters or more. -/
def cutAll : ℕ → Str → List Str × Str
  | 0, s => ([], s)
  | fuel + 1, s =>
      match cut s with
      | none => ([], s)
      | some (frame, rest) => (frame :: (cutAll fuel rest).1, (cutAll fuel rest).2)

/-- The frames of a text, and what is left after the last one. -/
def frames (s : Str) : List Str × Str := cutAll s.length s

/-- The text of a frame with the blank line that ends it. -/
def sealing (frame : Str) : Str := frame ++ "\n\n".toList

/-- A text that the blank line after it is the first one of. -/
def Whole (frame : Str) : Prop := cut (sealing frame) = some (frame, [])

theorem eq_of_cut {s frame rest : Str} (h : cut s = some (frame, rest)) :
    s = sealing frame ++ rest := by
  induction s generalizing frame with
  | nil => exact nomatch h
  | cons c s ih =>
      rw [cut] at h
      split_ifs at h with hblank
      · obtain ⟨rfl, hnext⟩ := hblank
        obtain ⟨rfl, rfl⟩ := Prod.mk.inj (Option.some.inj h)
        have hne : s ≠ [] := by
          rintro rfl
          exact nomatch hnext
        obtain ⟨d, t, rfl⟩ := List.exists_cons_of_ne_nil hne
        obtain rfl := Option.some.inj hnext
        rfl
      · obtain ⟨⟨frame', rest'⟩, hcut, heq⟩ := Option.map_eq_some_iff.mp h
        obtain ⟨rfl, rfl⟩ := Prod.mk.inj heq
        rw [ih hcut]
        rfl

theorem length_of_cut {s frame rest : Str} (h : cut s = some (frame, rest)) :
    s.length = frame.length + 2 + rest.length := by
  have hlength := congrArg List.length (eq_of_cut h)
  rwa [sealing, List.length_append, List.length_append] at hlength

/-- What follows a frame has no part in cutting it. -/
theorem cut_append {s frame rest : Str} (h : cut s = some (frame, rest)) (t : Str) :
    cut (s ++ t) = some (frame, rest ++ t) := by
  induction s generalizing frame with
  | nil => exact nomatch h
  | cons c s ih =>
      rw [cut] at h
      rw [List.cons_append, cut]
      split_ifs at h with hblank
      · obtain ⟨rfl, hnext⟩ := hblank
        obtain ⟨rfl, rfl⟩ := Prod.mk.inj (Option.some.inj h)
        have hne : s ≠ [] := by
          rintro rfl
          exact nomatch hnext
        obtain ⟨d, u, rfl⟩ := List.exists_cons_of_ne_nil hne
        rw [if_pos ⟨rfl, hnext⟩]
        rfl
      · obtain ⟨⟨frame', rest'⟩, hcut, heq⟩ := Option.map_eq_some_iff.mp h
        obtain ⟨rfl, rfl⟩ := Prod.mk.inj heq
        have hhead : (s ++ t).head? = s.head? := by
          cases s with
          | nil => exact nomatch hcut
          | cons d s => rfl
        rw [hhead, if_neg hblank, ih hcut]
        rfl

theorem cutAll_of_length_le {s : Str} {fuel : ℕ} (h : s.length ≤ fuel) :
    cutAll fuel s = frames s := by
  have hsame : ∀ (n : ℕ) (s : Str) (m : ℕ), s.length ≤ n → s.length ≤ m →
      cutAll n s = cutAll m s := by
    intro n
    induction n with
    | zero =>
        intro s m hn _
        obtain rfl := List.length_eq_zero_iff.mp (Nat.le_zero.mp hn)
        cases m <;> rfl
    | succ n ih =>
        intro s m hn hm
        cases m with
        | zero =>
            obtain rfl := List.length_eq_zero_iff.mp (Nat.le_zero.mp hm)
            rfl
        | succ m =>
            rw [cutAll, cutAll]
            cases hcut : cut s with
            | none => rfl
            | some parts =>
                obtain ⟨frame, rest⟩ := parts
                have hlength := length_of_cut hcut
                have hrest := ih rest m (by omega) (by omega)
                simp only [hrest]
  exact hsame fuel s s.length h le_rfl

theorem frames_of_cut_none {s : Str} (h : cut s = none) : frames s = ([], s) := by
  unfold frames
  cases s with
  | nil => rfl
  | cons c s =>
      rw [List.length_cons, cutAll, h]

theorem frames_of_cut {s frame rest : Str} (h : cut s = some (frame, rest)) :
    frames s = (frame :: (frames rest).1, (frames rest).2) := by
  have hlength := length_of_cut h
  obtain ⟨n, hn⟩ : ∃ n, s.length = n + 1 := ⟨s.length - 1, by omega⟩
  rw [frames, hn, cutAll, h]
  simp only
  rw [cutAll_of_length_le (by omega)]

/-- A text may be cut in two steps. -/
theorem frames_append (s t : Str) :
    frames (s ++ t) =
      ((frames s).1 ++ (frames ((frames s).2 ++ t)).1, (frames ((frames s).2 ++ t)).2) := by
  induction hn : s.length using Nat.strong_induction_on generalizing s with
  | _ n ih =>
      cases hcut : cut s with
      | none =>
          rw [frames_of_cut_none hcut]
          rfl
      | some parts =>
          obtain ⟨frame, rest⟩ := parts
          have hlength := length_of_cut hcut
          have hrest := ih rest.length (by omega) rest rfl
          rw [frames_of_cut (cut_append hcut t), frames_of_cut hcut, hrest]
          rfl

theorem frames_flatMap {fs : List Str} (hfs : ∀ f ∈ fs, Whole f) :
    frames (fs.flatMap sealing) = (fs, []) := by
  induction fs with
  | nil => rfl
  | cons f fs ih =>
      have hcut := cut_append (hfs f List.mem_cons_self) (fs.flatMap sealing)
      rw [List.nil_append] at hcut
      rw [List.flatMap_cons, frames_of_cut hcut, ih fun g hg ↦ hfs g (List.mem_cons_of_mem f hg)]

theorem cut_append_of_notMem {line : Str} (h : '\n' ∉ line) (hline : line ≠ []) (t : Str) :
    cut (line ++ t) = (cut t).map fun (frame, rest) ↦ (line ++ frame, rest) := by
  induction line with
  | nil => exact absurd rfl hline
  | cons c line ih =>
      obtain ⟨hc, hs⟩ := List.ne_and_not_mem_of_not_mem_cons h
      rw [List.cons_append, cut, if_neg (fun hblank ↦ hc hblank.1.symm)]
      cases line with
      | nil => rfl
      | cons d line =>
          rw [ih hs (List.cons_ne_nil d line), Option.map_map]
          rfl

/-- Lines that are not empty make a frame. -/
theorem whole_intercalate {lines : List Str} (hne : lines ≠ [])
    (hlines : ∀ l ∈ lines, l ≠ [] ∧ '\n' ∉ l) : Whole (['\n'].intercalate lines) := by
  induction lines with
  | nil => exact absurd rfl hne
  | cons l lines ih =>
      obtain ⟨hl, hbreak⟩ := hlines l List.mem_cons_self
      cases lines with
      | nil =>
          rw [List.intercalate_singleton, Whole, sealing, cut_append_of_notMem hbreak hl]
          exact congrArg some (Prod.ext (List.append_nil l) rfl)
      | cons m lines =>
          have hrest := ih (List.cons_ne_nil m lines) fun k hk ↦
            hlines k (List.mem_cons_of_mem l hk)
          obtain ⟨hm, hmbreak⟩ := hlines m (by simp)
          obtain ⟨c, m', rfl⟩ := List.exists_cons_of_ne_nil hm
          have hc : c ≠ '\n' := fun h ↦ hmbreak (h ▸ List.mem_cons_self)
          obtain ⟨t, ht⟩ : ∃ t, ['\n'].intercalate ((c :: m') :: lines) = c :: t := by
            cases lines with
            | nil => exact ⟨m', List.intercalate_singleton⟩
            | cons k lines => exact ⟨_, List.intercalate_cons_cons⟩
          rw [Whole, sealing, ht] at hrest
          have hsingle : ¬('\n' = '\n' ∧ (c :: t ++ "\n\n".toList).head? = some '\n') :=
            fun hblank ↦ hc (Option.some.inj hblank.2)
          rw [Whole, sealing, List.intercalate_cons_cons, ht]
          calc
            cut (l ++ ['\n'] ++ (c :: t) ++ "\n\n".toList) =
                (cut ('\n' :: (c :: t ++ "\n\n".toList))).map
                  fun (frame, rest) ↦ (l ++ frame, rest) := by
              rw [List.append_assoc, List.append_assoc, cut_append_of_notMem hbreak hl]
              rfl
            _ = some (l ++ '\n' :: (c :: t), []) := by
              rw [cut, if_neg hsingle, hrest, Option.map_some, Option.map_some]
            _ = some (l ++ ['\n'] ++ (c :: t), []) := by
              rw [List.append_assoc, List.singleton_append]

/-! ## Chunks -/

/-- What a receiver keeps: the state of its decoder and the text after the last frame. -/
structure Receiver where
  decoder : DecoderState
  buffer : Str

namespace Receiver

def start : Receiver := ⟨.ready, []⟩

/-- The frames that a chunk completes, and what is kept then. -/
def receive (r : Receiver) (chunk : List ℕ) : List Str × Receiver :=
  let decoded := r.decoder.feed chunk
  let cuts := frames (r.buffer ++ decoded.1)
  (cuts.1, ⟨decoded.2, cuts.2⟩)

end Receiver

theorem feed_append (s : DecoderState) (a b : List ℕ) :
    s.feed (a ++ b) = ((s.feed a).1 ++ ((s.feed a).2.feed b).1, ((s.feed a).2.feed b).2) := by
  induction a generalizing s with
  | nil => rfl
  | cons n a ih =>
      rw [List.cons_append, DecoderState.feed, DecoderState.feed, ih, List.append_assoc]

/-- Two chunks are received as their bytes at once would be. -/
theorem Receiver.receive_append (r : Receiver) (a b : List ℕ) :
    r.receive (a ++ b) =
      ((r.receive a).1 ++ ((r.receive a).2.receive b).1, ((r.receive a).2.receive b).2) := by
  simp only [receive]
  rw [feed_append, ← List.append_assoc, frames_append]

def encode (s : Str) : List ℕ := s.flatMap utf8Bytes

theorem encode_append (s t : Str) : encode (s ++ t) = encode s ++ encode t :=
  List.flatMap_append

theorem feed_encode (s : Str) : DecoderState.ready.feed (encode s) = (s, .ready) := by
  induction s with
  | nil => rfl
  | cons c s ih =>
      have hc := DecoderState.feed_utf8Bytes c
      rw [encode, List.flatMap_cons, feed_append, hc]
      rw [encode] at ih
      rw [ih]
      rfl

/-- All frames of a text are received with its bytes. -/
theorem receive_encode {fs : List Str} (hfs : ∀ f ∈ fs, Whole f) :
    Receiver.start.receive (encode (fs.flatMap sealing)) = (fs, .start) := by
  simp only [Receiver.receive, Receiver.start]
  rw [feed_encode, List.nil_append, frames_flatMap hfs]

/-- The first bytes of some frames bring the first ones of them. -/
theorem receive_prefix {fs : List Str} (hfs : ∀ f ∈ fs, Whole f) {bytes : List ℕ}
    (hbytes : bytes <+: encode (fs.flatMap sealing)) :
    (Receiver.start.receive bytes).1 <+: fs := by
  obtain ⟨later, hlater⟩ := hbytes
  have hall := Receiver.start.receive_append bytes later
  rw [hlater, receive_encode hfs] at hall
  exact ⟨_, (congrArg Prod.fst hall).symm⟩

end StorageReconciler.FrameStream
