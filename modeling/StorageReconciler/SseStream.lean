import Mathlib.Logic.Relation
import StorageReconciler.Foundations.FrameStream
import StorageReconciler.Foundations.Json

/-!
# Event streams and the page that reads them

A worker thread hands its events to the event loop, which writes them to the
response, with a comment whenever nothing happens for a while.  What is handed over
are the data themselves, so an event is written with the data it has by then.  The
page cuts what it receives into frames and calls a handler for each event, until one
reports an error.  Wherever the network cuts the bytes, the handlers see the events of
the worker in their order, and an end without an error means that they have seen all.
-/

namespace StorageReconciler

open Strings FrameStream Json

/-! ## Frames -/

/-- The letters of event names. -/
def isEventChar (c : Char) : Bool := c.isLower || c == '_'

/-- What `emit` is called with. -/
structure SseEvent where
  event : Str
  data : List (Str × Json)
  event_ne_nil : event ≠ []
  event_chars : ∀ c ∈ event, isEventChar c = true
  distinct : (Json.obj data).Distinct

namespace SseEvent

def eventLine (e : SseEvent) : Str := "event: ".toList ++ e.event

def dataLine (e : SseEvent) : Str := "data: ".toList ++ dumps (.obj e.data)

end SseEvent

def sseFormat (e : SseEvent) : Str :=
  "event: ".toList ++ e.event ++ "\ndata: ".toList ++ dumps (.obj e.data) ++ "\n\n".toList

def heartbeat : Str := ": heartbeat\n\n".toList

/-- What is written to a response. -/
inductive Wire where
  | event (e : SseEvent)
  | heartbeat

namespace Wire

def text : Wire → Str
  | event e => sseFormat e
  | heartbeat => StorageReconciler.heartbeat

def event? : Wire → Option SseEvent
  | event e => some e
  | heartbeat => none

/-- The lines of a frame. -/
def lines : Wire → List Str
  | event e => [e.eventLine, e.dataLine]
  | heartbeat => [": heartbeat".toList]

def frame (w : Wire) : Str := ['\n'].intercalate w.lines

theorem text_eq (w : Wire) : w.text = sealing w.frame := by
  cases w with
  | event e =>
      have hlines : ∀ name field data break_ : Str, break_ = ['\n'] ++ field →
          name ++ break_ ++ data = ['\n'].intercalate [name, field ++ data] := by
        rintro name field data _ rfl
        simp [List.intercalate_cons_cons]
      have hbreak : "\ndata: ".toList = ['\n'] ++ "data: ".toList := by decide
      exact congrArg (· ++ "\n\n".toList) (hlines e.eventLine _ (dumps (.obj e.data)) _ hbreak)
  | heartbeat =>
      have hend : heartbeat.text = ": heartbeat".toList ++ "\n\n".toList := by decide
      exact hend.trans (congrArg (· ++ "\n\n".toList) List.intercalate_singleton.symm)

end Wire

/-! ## The page -/

/-- The characters that `trim` removes. -/
def isTrimmed (c : Char) : Bool :=
  let n := c.toNat
  (9 ≤ n && n ≤ 13) || n == 0x20 || n == 0xA0 || n == 0x1680 || (0x2000 ≤ n && n ≤ 0x200A) ||
    n == 0x2028 || n == 0x2029 || n == 0x202F || n == 0x205F || n == 0x3000 || n == 0xFEFF

def trim (s : Str) : Str := (s.dropWhile isTrimmed).rdropWhile isTrimmed

/-- A line of a frame, with the event and the data of the lines before it. -/
def readLine (frame : Str × Str) (line : Str) : Str × Str :=
  if "event:".toList.isPrefixOf line then (trim (line.drop 6), frame.2)
  else if "data:".toList.isPrefixOf line then (frame.1, frame.2 ++ trim (line.drop 5))
  else frame

def readFrame (frame : Str) : Str × Str :=
  (frame.splitOn '\n').foldl readLine ("message".toList, [])

/-- `parsed.message || "Stream error"` -/
def errorMessage (parsed : Json) : Str :=
  match parsed.get? "message".toList with
  | some (.str (c :: s)) => c :: s
  | _ => "Stream error".toList

/-- Whether `fetchSse` goes on, has thrown, was cut off, or has returned. -/
inductive FetchPhase where
  | reading
  | failed (message : Str)
  | lost
  | ended

/-- The calls of handlers so far. -/
structure Outcome where
  phase : FetchPhase
  dispatched : List (Str × Json)

namespace Outcome

def start : Outcome := ⟨.reading, []⟩

/-- A frame; nothing is read any more once an error was thrown. -/
def handle (o : Outcome) (frame : Str) : Outcome :=
  match o.phase with
  | .reading =>
      let (event, data) := readFrame frame
      if data = [] then o
      else
        match loads data with
        | none => { o with phase := .failed "SyntaxError".toList }
        | some parsed =>
            if event = "error".toList then { o with phase := .failed (errorMessage parsed) }
            else { o with dispatched := o.dispatched ++ [(event, parsed)] }
  | _ => o

end Outcome

/-- `fetchSse` between two reads of the response. -/
structure FetchSse where
  receiver : Receiver
  outcome : Outcome

namespace FetchSse

def start : FetchSse := ⟨.start, .start⟩

def receive (client : FetchSse) (chunk : List ℕ) : FetchSse where
  receiver := (client.receiver.receive chunk).2
  outcome := (client.receiver.receive chunk).1.foldl Outcome.handle client.outcome

def setPhase (client : FetchSse) (phase : FetchPhase) : FetchSse :=
  { client with outcome := { client.outcome with phase := phase } }

theorem receive_append (client : FetchSse) (a b : List ℕ) :
    (client.receive a).receive b = client.receive (a ++ b) := by
  simp only [receive]
  rw [Receiver.receive_append, List.foldl_append]

end FetchSse

/-- A frame does not make the page return. -/
theorem Outcome.handle_phase (o : Outcome) (frame : Str) (h : (o.handle frame).phase = .ended) :
    o.phase = .ended := by
  obtain ⟨phase, dispatched⟩ := o
  cases phase with
  | reading =>
      rw [handle] at h
      simp only at h
      split at h
      · exact h
      · split at h
        · exact nomatch h
        · split at h <;> exact nomatch h
  | failed message => exact h
  | lost => exact h
  | ended => rfl

theorem FetchSse.receive_phase (client : FetchSse) {chunk : List ℕ}
    (h : (client.receive chunk).outcome.phase = .ended) : client.outcome.phase = .ended := by
  have hfold : ∀ (fs : List Str) (o : Outcome), (fs.foldl Outcome.handle o).phase = .ended →
      o.phase = .ended := by
    intro fs
    induction fs with
    | nil => exact fun _ ho ↦ ho
    | cons f fs ih => exact fun o ho ↦ o.handle_phase f (ih _ ho)
  exact hfold _ _ h

/-! ## What the page makes of a frame -/

theorem trim_of_ends {c d : Char} (hc : isTrimmed c = false) (hd : isTrimmed d = false)
    (s : Str) : trim (' ' :: c :: (s ++ [d])) = c :: (s ++ [d]) := by
  have hdrop : (' ' :: c :: (s ++ [d])).dropWhile isTrimmed = c :: (s ++ [d]) := by
    rw [List.dropWhile_cons_of_pos (by rfl), List.dropWhile_cons_of_neg (by simp [hc])]
  rw [trim, hdrop, ← List.cons_append]
  exact List.rdropWhile_concat_neg _ _ _ (by simp [hd])

theorem trim_of_forall {s : Str} (hs : ∀ c ∈ s, isTrimmed c = false) : trim (' ' :: s) = s := by
  have hdrop : (' ' :: s).dropWhile isTrimmed = s := by
    rw [List.dropWhile_cons_of_pos (by rfl)]
    exact List.dropWhile_eq_self_iff.mpr fun h ↦ by simpa using hs _ (List.getElem_mem h)
  rw [trim, hdrop]
  exact List.rdropWhile_eq_self_iff.mpr fun h ↦ by simpa using hs _ (List.getLast_mem h)

theorem isAscii_of_isEventChar {c : Char} (hc : isEventChar c = true) : isAscii c = true := by
  simp only [isEventChar, Bool.or_eq_true, beq_iff_eq] at hc
  rcases hc with hc | rfl
  · have hle : c.toNat ≤ 122 := of_decide_eq_true (Bool.and_eq_true_iff.mp hc).2
    simp only [isAscii, decide_eq_true_eq]
    omega
  · rfl

/-- An event name is not trimmed, and holds no line break. -/
theorem isTrimmed_of_isEventChar {c : Char} (hc : isEventChar c = true) :
    isTrimmed c = false ∧ c ≠ '\n' :=
  forall_ascii (P := fun c ↦ isEventChar c = true → isTrimmed c = false ∧ c ≠ '\n') (by decide)
    (isAscii_of_isEventChar hc) hc

theorem newline_notMem_dumps (v : Json) : '\n' ∉ dumps v :=
  fun h ↦ absurd (isPrintable_dumps v '\n' h) (by decide)

theorem Wire.lines_spec (w : Wire) : ∀ l ∈ w.lines, l ≠ [] ∧ '\n' ∉ l := by
  cases w with
  | event e =>
      have hname : '\n' ∉ e.event := fun h ↦ (isTrimmed_of_isEventChar (e.event_chars _ h)).2 rfl
      have hevent : '\n' ∉ "event: ".toList := by decide
      have hdata : '\n' ∉ "data: ".toList := by decide
      have hfirst : e.eventLine ≠ [] ∧ '\n' ∉ e.eventLine :=
        ⟨List.append_ne_nil_of_left_ne_nil (by decide) _,
          fun h ↦ (List.mem_append.mp h).elim hevent hname⟩
      have hsecond : e.dataLine ≠ [] ∧ '\n' ∉ e.dataLine :=
        ⟨List.append_ne_nil_of_left_ne_nil (by decide) _,
          fun h ↦ (List.mem_append.mp h).elim hdata (newline_notMem_dumps _)⟩
      intro l hl
      rcases List.mem_cons.mp hl with heq | hl
      · exact heq ▸ hfirst
      · exact List.mem_singleton.mp hl ▸ hsecond
  | heartbeat =>
      intro l hl
      obtain rfl := List.mem_singleton.mp hl
      decide

theorem Wire.lines_ne_nil (w : Wire) : w.lines ≠ [] := by
  cases w <;> exact List.cons_ne_nil _ _

theorem Wire.whole (w : Wire) : Whole w.frame := whole_intercalate w.lines_ne_nil w.lines_spec

theorem Wire.splitOn_frame (w : Wire) : w.frame.splitOn '\n' = w.lines :=
  List.splitOn_intercalate '\n' (fun l hl ↦ (w.lines_spec l hl).2) w.lines_ne_nil

theorem readFrame_event (e : SseEvent) :
    readFrame (Wire.event e).frame = (e.event, dumps (.obj e.data)) := by
  have hname : trim (' ' :: e.event) = e.event :=
    trim_of_forall fun c hc ↦ (isTrimmed_of_isEventChar (e.event_chars c hc)).1
  have hdata : trim (' ' :: dumps (.obj e.data)) = dumps (.obj e.data) := by
    obtain ⟨s, hs⟩ := dumps_obj e.data
    rw [hs]
    exact trim_of_ends rfl rfl s
  have hfield : ∀ field name value : Str, field = name ++ [' '] →
      field ++ value = name ++ ' ' :: value := by
    rintro _ name value rfl
    rw [List.append_assoc, List.singleton_append]
  have hevent : e.eventLine = "event:".toList ++ ' ' :: e.event := hfield _ _ _ (by decide)
  have hline : e.dataLine = "data:".toList ++ ' ' :: dumps (.obj e.data) :=
    hfield _ _ _ (by decide)
  have hfirst : readLine ("message".toList, []) e.eventLine = (e.event, []) := by
    rw [hevent, readLine, if_pos (by simp), List.drop_append_of_le_length (by decide)]
    exact Prod.ext hname rfl
  have hsecond : readLine (e.event, []) e.dataLine = (e.event, dumps (.obj e.data)) := by
    rw [hline, readLine, if_neg (by simp), if_pos (by simp),
      List.drop_append_of_le_length (by decide)]
    exact Prod.ext rfl hdata
  calc
    readFrame (Wire.event e).frame = readLine (readLine ("message".toList, []) e.eventLine)
        e.dataLine := by
      rw [readFrame, Wire.splitOn_frame, Wire.lines]
      rfl
    _ = (e.event, dumps (.obj e.data)) := by rw [hfirst, hsecond]

/-- The event as the page sees it. -/
def SseEvent.parsed (e : SseEvent) : Str × Json := (e.event, .obj e.data)

def SseEvent.IsError (e : SseEvent) : Prop := e.event = "error".toList

instance (e : SseEvent) : Decidable e.IsError := inferInstanceAs (Decidable (_ = _))

/-- What a frame does to an outcome. -/
def Outcome.take (o : Outcome) (w : Wire) : Outcome :=
  match o.phase, w with
  | .reading, .event e =>
      if e.IsError then { o with phase := .failed (errorMessage (.obj e.data)) }
      else { o with dispatched := o.dispatched ++ [e.parsed] }
  | _, _ => o

theorem Outcome.handle_frame (o : Outcome) (w : Wire) : o.handle w.frame = o.take w := by
  obtain ⟨phase, dispatched⟩ := o
  cases phase with
  | reading =>
      cases w with
      | event e =>
          obtain ⟨s, hs⟩ := dumps_obj e.data
          have hne : dumps (.obj e.data) ≠ [] := by
            rw [hs]
            exact List.cons_ne_nil _ _
          simp only [handle, readFrame_event, if_neg hne, loads_dumps e.distinct]
          rfl
      | heartbeat => rfl
  | failed message => cases w <;> rfl
  | lost => cases w <;> rfl
  | ended => cases w <;> rfl

/-! ## Events handled so far -/

/-- The handlers have seen the events, up to the first error, which was thrown. -/
def Outcome.Follows (o : Outcome) (events : List SseEvent) : Prop :=
  match o.phase with
  | .reading => o.dispatched = events.map SseEvent.parsed ∧ ∀ e ∈ events, ¬e.IsError
  | .failed message => ∃ before e after, events = before ++ e :: after ∧
      (∀ e ∈ before, ¬e.IsError) ∧ e.IsError ∧ message = errorMessage (.obj e.data) ∧
        o.dispatched = before.map SseEvent.parsed
  | _ => False

theorem Outcome.Follows.take {o : Outcome} {events : List SseEvent} (h : o.Follows events)
    (w : Wire) : (o.take w).Follows (events ++ w.event?.toList) := by
  obtain ⟨phase, dispatched⟩ := o
  cases phase with
  | reading =>
      obtain ⟨hdispatched, hplain⟩ := h
      cases w with
      | event e =>
          by_cases herror : e.IsError
          · have htake : Outcome.take ⟨.reading, dispatched⟩ (.event e) =
                ⟨.failed (errorMessage (.obj e.data)), dispatched⟩ := if_pos herror
            rw [htake]
            exact ⟨events, e, [], rfl, hplain, herror, rfl, hdispatched⟩
          · have htake : Outcome.take ⟨.reading, dispatched⟩ (.event e) =
                ⟨.reading, dispatched ++ [e.parsed]⟩ := if_neg herror
            rw [htake]
            constructor
            · change dispatched ++ [e.parsed] = (events ++ [e]).map SseEvent.parsed
              rw [List.map_append, ← hdispatched]
              rfl
            · intro e' he'
              rcases List.mem_append.mp he' with he' | he'
              · exact hplain e' he'
              · obtain rfl := List.mem_singleton.mp he'
                exact herror
      | heartbeat =>
          rw [Wire.event?, Option.toList_none, List.append_nil]
          exact ⟨hdispatched, hplain⟩
  | failed message =>
      obtain ⟨before, e, after, rfl, hrest⟩ := h
      refine ⟨before, e, after ++ w.event?.toList, ?_, ?_⟩
      · rw [List.append_assoc, List.cons_append]
      · cases w <;> exact hrest
  | lost => exact h.elim
  | ended => exact h.elim

theorem Outcome.follows_foldl (ws : List Wire) :
    ((ws.map Wire.frame).foldl Outcome.handle .start).Follows (ws.filterMap Wire.event?) := by
  induction ws using List.reverseRecOn with
  | nil => exact ⟨rfl, fun e he ↦ nomatch he⟩
  | append_singleton ws w ih =>
      rw [List.map_append, List.foldl_append, List.filterMap_append]
      change Outcome.Follows (Outcome.handle _ w.frame) _
      rw [Outcome.handle_frame]
      have htake := ih.take w
      cases w <;> exact htake

/-- The bytes of some frames. -/
def wireBytes (ws : List Wire) : List ℕ := encode (ws.flatMap Wire.text)

theorem wireBytes_eq (ws : List Wire) :
    wireBytes ws = encode ((ws.map Wire.frame).flatMap sealing) := by
  have htext : Wire.text = fun w ↦ sealing w.frame := funext Wire.text_eq
  rw [wireBytes, htext, List.flatMap_map]

theorem wireBytes_append (ws ws' : List Wire) :
    wireBytes (ws ++ ws') = wireBytes ws ++ wireBytes ws' := by
  rw [wireBytes, List.flatMap_append, encode_append]
  rfl

theorem forall_whole (ws : List Wire) : ∀ f ∈ ws.map Wire.frame, Whole f := by
  intro f hf
  obtain ⟨w, _, rfl⟩ := List.mem_map.mp hf
  exact w.whole

/-- Whatever part of the bytes has come, the handlers have seen the first events. -/
theorem receive_follows {ws : List Wire} {bytes : List ℕ} (h : bytes <+: wireBytes ws) :
    ∃ n, (FetchSse.start.receive bytes).outcome.Follows ((ws.take n).filterMap Wire.event?) := by
  rw [wireBytes_eq] at h
  have hfront := receive_prefix (forall_whole ws) h
  obtain ⟨n, hn⟩ : ∃ n, (Receiver.start.receive bytes).1 = (ws.take n).map Wire.frame := by
    rw [List.prefix_iff_eq_take] at hfront
    exact ⟨_, hfront.trans List.map_take.symm⟩
  refine ⟨n, ?_⟩
  change ((Receiver.start.receive bytes).1.foldl Outcome.handle .start).Follows _
  rw [hn]
  exact Outcome.follows_foldl (ws.take n)

theorem receive_all_follows (ws : List Wire) :
    (FetchSse.start.receive (wireBytes ws)).outcome.Follows (ws.filterMap Wire.event?) := by
  change ((Receiver.start.receive (wireBytes ws)).1.foldl Outcome.handle .start).Follows _
  rw [wireBytes_eq, receive_encode (forall_whole ws)]
  exact Outcome.follows_foldl ws

/-- Without an error among them, the events are all handled. -/
theorem receive_all_reading {ws : List Wire}
    (hplain : ∀ e ∈ ws.filterMap Wire.event?, ¬e.IsError) :
    (FetchSse.start.receive (wireBytes ws)).outcome =
      ⟨.reading, (ws.filterMap Wire.event?).map SseEvent.parsed⟩ := by
  have hfollows := receive_all_follows ws
  generalize (FetchSse.start.receive (wireBytes ws)).outcome = o at hfollows ⊢
  obtain ⟨phase, dispatched⟩ := o
  cases phase with
  | reading => exact congrArg (Outcome.mk .reading) hfollows.1
  | failed message =>
      obtain ⟨before, e, after, hevents, _, herror, _⟩ := hfollows
      exact absurd herror (hplain e (by simp [hevents]))
  | lost => exact hfollows.elim
  | ended => exact hfollows.elim

/-! ## A run of a stream -/

/-- An event that was emitted, and the data that it had before they were changed. -/
structure Emitted where
  current : SseEvent
  older : List SseEvent
  sameName : ∀ e ∈ older, e.event = current.event

namespace Emitted

def ofEvent (e : SseEvent) : Emitted := ⟨e, [], fun _ h ↦ absurd h List.not_mem_nil⟩

/-- The event has had these data at some time. -/
def Had (emission : Emitted) (e : SseEvent) : Prop := e = emission.current ∨ e ∈ emission.older

def change (emission : Emitted) (data : List (Str × Json)) (distinct : (Json.obj data).Distinct) :
    Emitted where
  current := { emission.current with data := data, distinct := distinct }
  older := emission.current :: emission.older
  sameName := List.forall_mem_cons.mpr ⟨rfl, emission.sameName⟩

/-- The data of the event stay as they are, or are changed. -/
inductive Becomes (emission : Emitted) : Emitted → Prop where
  | same : Becomes emission emission
  | changed (data : List (Str × Json)) (distinct : (Json.obj data).Distinct) :
      Becomes emission (emission.change data distinct)

theorem Becomes.had {emission emission' : Emitted} (h : emission.Becomes emission')
    {e : SseEvent} (he : emission.Had e) : emission'.Had e := by
  cases h with
  | same => exact he
  | changed data distinct => exact .inr (List.mem_cons.mpr he)

end Emitted

/-- What stands in the queue of a stream; the events by the order in which they were emitted. -/
inductive QueueItem where
  | event (i : ℕ)
  | done

def QueueItem.index? : QueueItem → Option ℕ
  | event i => some i
  | done => none

/-- How far `runner` is: at work, about to put the last item, or at its end. -/
inductive RunnerPhase where
  | working
  | closing
  | finished
  deriving DecidableEq

/-- The worker's thread, the callbacks it has left with the event loop, the queue, the
response, and the page. -/
structure SseRun where
  emitted : List Emitted
  runner : RunnerPhase
  scheduled : List QueueItem
  queue : List QueueItem
  written : List Wire
  ended : Bool
  received : ℕ
  client : FetchSse

namespace SseRun

def start : SseRun := ⟨[], .working, [], [], [], false, 0, .start⟩

def emit (p : SseRun) (e : SseEvent) : SseRun :=
  { p with
    emitted := p.emitted ++ [.ofEvent e]
    scheduled := p.scheduled ++ [.event p.emitted.length] }

def write (p : SseRun) (w : Wire) : SseRun := { p with written := p.written ++ [w] }

end SseRun

theorem isEventChar_error : ∀ c ∈ "error".toList, isEventChar c = true := by decide

/-- The event that `runner` makes of an exception. -/
def errorEvent (message : Str) : SseEvent where
  event := "error".toList
  data := [("message".toList, .str message)]
  event_ne_nil := by decide
  event_chars := isEventChar_error
  distinct := ⟨by simp, trivial, trivial⟩

/-- The steps of `sse_stream`, of the network and of `fetchSse`.  Whoever shares the data of
events may change them, and a page that was cut off may be noticed by the server. -/
inductive SseStep : SseRun → SseRun → Prop where
  | emit {p : SseRun} (e : SseEvent) (working : p.runner = .working) : SseStep p (p.emit e)
  | changes {p : SseRun} {emitted : List Emitted}
      (becomes : List.Forall₂ Emitted.Becomes p.emitted emitted) :
      SseStep p { p with emitted := emitted }
  | returns {p : SseRun} (working : p.runner = .working) :
      SseStep p { p with runner := .closing }
  | raises {p : SseRun} (message : Str) (working : p.runner = .working) :
      SseStep p { p.emit (errorEvent message) with runner := .closing }
  | closes {p : SseRun} (closing : p.runner = .closing) :
      SseStep p { p with runner := .finished, scheduled := p.scheduled ++ [.done] }
  | puts {p : SseRun} {item : QueueItem} {rest : List QueueItem}
      (next : p.scheduled = item :: rest) :
      SseStep p { p with scheduled := rest, queue := p.queue ++ [item] }
  | sends {p : SseRun} {i : ℕ} {emission : Emitted} {rest : List QueueItem}
      (open_ : p.ended = false) (next : p.queue = .event i :: rest)
      (emission_at : p.emitted[i]? = some emission) :
      SseStep p { p.write (.event emission.current) with queue := rest }
  | ends {p : SseRun} {rest : List QueueItem} (open_ : p.ended = false)
      (next : p.queue = .done :: rest) :
      SseStep p { p with ended := true, queue := rest }
  | timesOut {p : SseRun} (open_ : p.ended = false) : SseStep p (p.write .heartbeat)
  | receives {p : SseRun} (size : ℕ) (reading : p.client.outcome.phase = .reading) :
      SseStep p { p with
        received := min (p.received + size) (wireBytes p.written).length
        client := p.client.receive (((wireBytes p.written).drop p.received).take size) }
  | closed {p : SseRun} (reading : p.client.outcome.phase = .reading) (drained : p.ended = true)
      (all : p.received = (wireBytes p.written).length) :
      SseStep p { p with client := p.client.setPhase .ended }
  | lost {p : SseRun} (reading : p.client.outcome.phase = .reading) :
      SseStep p { p with client := p.client.setPhase .lost }
  | cancelled {p : SseRun} (gone : p.client.outcome.phase ≠ .reading) :
      SseStep p { p with ended := true }

/-- The page has handled the first of the events, and an error ends it; if it came to its
end without one, the worker is done and the page has handled them all. -/
structure SseRun.Delivers (p : SseRun) (events : List SseEvent) : Prop where
  dispatched : ∃ n, p.client.outcome.dispatched = (events.take n).map SseEvent.parsed ∧
    ∀ e ∈ events.take n, ¬e.IsError
  ended : p.client.outcome.phase = .ended → p.runner = .finished ∧
    p.client.outcome.dispatched = events.map SseEvent.parsed ∧ ∀ e ∈ events, ¬e.IsError
  failed : ∀ message, p.client.outcome.phase = .failed message → ∃ n e,
    events[n]? = some e ∧ e.IsError ∧ message = errorMessage (.obj e.data) ∧
      p.client.outcome.dispatched = (events.take n).map SseEvent.parsed

/-! ## What holds in every run -/

/-- The items between the worker and the response. -/
def SseRun.pending (p : SseRun) : List QueueItem := p.queue ++ p.scheduled

/-- The events that were written. -/
def SseRun.sent (p : SseRun) : List SseEvent := p.written.filterMap Wire.event?

/-- The events are handed on in their order, each is written with data that it had, and
nothing comes after the last item. -/
structure SseRun.Orderly (p : SseRun) : Prop where
  fifo : List.range p.sent.length ++ p.pending.filterMap QueueItem.index? =
    List.range p.emitted.length
  had : List.Forall₂ Emitted.Had (p.emitted.take p.sent.length) p.sent
  unfinished : p.runner ≠ .finished → .done ∉ p.pending
  finished : p.runner = .finished →
    p.pending = [] ∨ ∃ items, .done ∉ items ∧ p.pending = items ++ [.done]
  drained : p.ended = true → p.client.outcome.phase = .reading ∨ p.client.outcome.phase = .ended →
    p.runner = .finished ∧ p.pending = []
  closed : p.client.outcome.phase = .ended → p.ended = true

/-- The page as the bytes that it received have made it. -/
structure SseRun.Fetched (p : SseRun) : Prop where
  bound : p.received ≤ (wireBytes p.written).length
  reading : p.client.outcome.phase = .reading →
    p.client = FetchSse.start.receive ((wireBytes p.written).take p.received)
  failed : ∀ message, p.client.outcome.phase = .failed message →
    p.client = FetchSse.start.receive ((wireBytes p.written).take p.received)
  dispatched : p.client.outcome.dispatched =
    (FetchSse.start.receive ((wireBytes p.written).take p.received)).outcome.dispatched
  ended : p.client.outcome.phase = .ended → p.received = (wireBytes p.written).length ∧
      (FetchSse.start.receive ((wireBytes p.written).take p.received)).outcome.phase = .reading

theorem done_notMem_concat {items : List QueueItem} (h : QueueItem.done ∉ items) (i : ℕ) :
    QueueItem.done ∉ items ++ [.event i] := by
  simp [h]

theorem SseRun.Orderly.sent_length_le {p : SseRun} (h : p.Orderly) :
    p.sent.length ≤ p.emitted.length := by
  have hlength := congrArg List.length h.fifo
  rw [List.length_append, List.length_range, List.length_range] at hlength
  exact hlength ▸ Nat.le_add_right _ _

theorem SseRun.Orderly.emit {p : SseRun} (h : p.Orderly) (e : SseEvent)
    (hworking : p.runner = .working) : (p.emit e).Orderly := by
  have hpending : (p.emit e).pending = p.pending ++ [.event p.emitted.length] :=
    (List.append_assoc _ _ _).symm
  have hunfinished : p.runner ≠ .finished := by simp [hworking]
  have hlength : (p.emit e).emitted.length = p.emitted.length + 1 := List.length_append
  constructor
  · rw [hpending, List.filterMap_append, ← List.append_assoc, hlength, List.range_succ]
    exact congrArg (· ++ [p.emitted.length]) h.fifo
  · change List.Forall₂ _ ((p.emitted ++ [Emitted.ofEvent e]).take p.sent.length) p.sent
    rw [List.take_append_of_le_length h.sent_length_le]
    exact h.had
  · intro _
    rw [hpending]
    exact done_notMem_concat (h.unfinished hunfinished) _
  · exact fun hfinished ↦ absurd hfinished hunfinished
  · exact fun hended hphase ↦ absurd (h.drained hended hphase).1 hunfinished
  · exact h.closed

theorem SseRun.Orderly.close {p : SseRun} (h : p.Orderly) (hworking : p.runner = .working) :
    SseRun.Orderly { p with runner := .closing } := by
  have hunfinished : p.runner ≠ .finished := by simp [hworking]
  exact ⟨h.fifo, h.had, fun _ ↦ h.unfinished hunfinished, fun hfinished ↦ (nomatch hfinished),
    fun hended hphase ↦ absurd (h.drained hended hphase).1 hunfinished, h.closed⟩

theorem SseRun.Orderly.concat_done {p : SseRun} (h : p.Orderly) (hclosing : p.runner = .closing) :
    SseRun.Orderly { p with runner := .finished, scheduled := p.scheduled ++ [.done] } := by
  have hunfinished : p.runner ≠ .finished := by simp [hclosing]
  have hpending : SseRun.pending { p with
      runner := .finished, scheduled := p.scheduled ++ [.done] } = p.pending ++ [.done] :=
    (List.append_assoc _ _ _).symm
  constructor
  · rw [hpending, List.filterMap_append]
    refine Eq.trans ?_ h.fifo
    exact congrArg (List.range p.sent.length ++ ·) (List.append_nil _)
  · exact h.had
  · exact fun hcontra ↦ absurd rfl hcontra
  · exact fun _ ↦ .inr ⟨p.pending, h.unfinished hunfinished, hpending⟩
  · exact fun hended hphase ↦ absurd (h.drained hended hphase).1 hunfinished
  · exact h.closed

theorem SseRun.Orderly.of_pending {p : SseRun} (h : p.Orderly) {scheduled queue : List QueueItem}
    (hpending : queue ++ scheduled = p.pending) :
    SseRun.Orderly { p with scheduled := scheduled, queue := queue } := by
  have hsame : SseRun.pending { p with scheduled := scheduled, queue := queue } = p.pending :=
    hpending
  constructor
  · rw [hsame]
    exact h.fifo
  · exact h.had
  · rw [hsame]
    exact h.unfinished
  · rw [hsame]
    exact h.finished
  · rw [hsame]
    exact h.drained
  · exact h.closed

/-- The next item is an event, and the last one is still to come, or it is the last one. -/
theorem SseRun.Orderly.next {p : SseRun} (h : p.Orderly) {item : QueueItem}
    {rest : List QueueItem} (hnext : p.queue = item :: rest) :
    p.pending = item :: (rest ++ p.scheduled) ∧
      (p.runner ≠ .finished → .done ∉ rest ++ p.scheduled) ∧
      (p.runner = .finished → item = .done ∧ rest ++ p.scheduled = [] ∨
        item ≠ .done ∧ ∃ items, .done ∉ items ∧ rest ++ p.scheduled = items ++ [.done]) := by
  have hpending : p.pending = item :: (rest ++ p.scheduled) := by
    rw [SseRun.pending, hnext, List.cons_append]
  refine ⟨hpending, fun hunfinished hmem ↦ ?_, fun hfinished ↦ ?_⟩
  · exact h.unfinished hunfinished (hpending ▸ List.mem_cons_of_mem _ hmem)
  · rcases h.finished hfinished with hnil | ⟨items, hitems, hlast⟩
    · exact absurd (hpending.symm.trans hnil) (List.cons_ne_nil _ _)
    · rw [hpending] at hlast
      cases items with
      | nil => exact .inl ⟨(List.cons.inj hlast).1, (List.cons.inj hlast).2⟩
      | cons first items =>
          obtain ⟨rfl, hrest⟩ := List.cons.inj hlast
          exact .inr ⟨fun hdone ↦ hitems (hdone ▸ List.mem_cons_self), items,
            fun hmem ↦ hitems (List.mem_cons_of_mem _ hmem), hrest⟩

/-- The next event to be written is the one that was emitted after those written. -/
theorem SseRun.Orderly.next_eq {p : SseRun} (h : p.Orderly) {i : ℕ} {rest : List QueueItem}
    (hnext : p.pending = .event i :: rest) :
    i = p.sent.length ∧ List.range (p.sent.length + 1) ++ rest.filterMap QueueItem.index? =
      List.range p.emitted.length := by
  have hfifo := h.fifo
  rw [hnext] at hfifo
  change _ ++ i :: rest.filterMap QueueItem.index? = _ at hfifo
  have hi := congrArg (fun l ↦ l[p.sent.length]?) hfifo
  rw [List.getElem?_append_right (by simp), List.length_range, Nat.sub_self,
    List.getElem?_cons_zero] at hi
  obtain ⟨hlt, hget⟩ := List.getElem?_eq_some_iff.mp hi.symm
  rw [List.getElem_range] at hget
  subst hget
  rw [List.range_succ, List.append_assoc]
  exact ⟨rfl, hfifo⟩

theorem SseRun.Orderly.send {p : SseRun} (h : p.Orderly) {i : ℕ} {emission : Emitted}
    {rest : List QueueItem} (hopen : p.ended = false) (hnext : p.queue = .event i :: rest)
    (hemission : p.emitted[i]? = some emission) :
    SseRun.Orderly { p.write (.event emission.current) with queue := rest } := by
  obtain ⟨hpending, hunfinished, hfinished⟩ := h.next hnext
  obtain ⟨rfl, hfifo⟩ := h.next_eq hpending
  have hsent : SseRun.sent { p.write (.event emission.current) with queue := rest } =
      p.sent ++ [emission.current] := List.filterMap_append
  refine ⟨?_, ?_, hunfinished, fun hdone ↦ ?_,
    fun hended ↦ absurd (hopen.symm.trans hended) Bool.false_ne_true, h.closed⟩
  · rw [hsent, List.length_append, List.length_singleton]
    exact hfifo
  · rw [hsent, List.length_append, List.length_singleton]
    change List.Forall₂ _ (p.emitted.take (p.sent.length + 1)) _
    rw [List.take_add_one, hemission]
    exact List.rel_append h.had (.cons (.inl rfl) .nil)
  · rcases hfinished hdone with ⟨hcontra, _⟩ | ⟨_, hlast⟩
    · exact nomatch hcontra
    · exact .inr hlast

theorem forall₂_had_of_becomes {emitted emitted' : List Emitted}
    (h : List.Forall₂ Emitted.Becomes emitted emitted') {events : List SseEvent}
    (hhad : List.Forall₂ Emitted.Had emitted events) :
    List.Forall₂ Emitted.Had emitted' events := by
  induction h generalizing events with
  | nil => exact hhad
  | cons hfirst _ ih =>
      cases hhad with
      | cons hhead htail => exact .cons (hfirst.had hhead) (ih htail)

theorem SseStep.orderly {p q : SseRun} (hstep : SseStep p q) (h : p.Orderly) : q.Orderly := by
  cases hstep with
  | emit e working => exact h.emit e working
  | @changes emitted becomes =>
      refine ⟨?_, ?_, h.unfinished, h.finished, h.drained, h.closed⟩
      · change _ = List.range emitted.length
        rw [← becomes.length_eq]
        exact h.fifo
      · exact forall₂_had_of_becomes (List.forall₂_take _ becomes) h.had
  | returns working => exact h.close working
  | raises message working => exact (h.emit (errorEvent message) working).close working
  | closes closing => exact h.concat_done closing
  | @puts item rest next =>
      apply h.of_pending
      rw [SseRun.pending, next, List.append_assoc, List.singleton_append]
  | sends open_ next emission_at => exact h.send open_ next emission_at
  | @ends rest open_ next =>
      obtain ⟨hpending, hunfinished, hfinished⟩ := h.next next
      have hdone : p.runner = .finished := by
        by_contra hworking
        exact h.unfinished hworking (hpending ▸ List.mem_cons_self)
      have hrest : rest ++ p.scheduled = [] := by
        rcases hfinished hdone with ⟨_, hnil⟩ | ⟨hcontra, _⟩
        · exact hnil
        · exact absurd rfl hcontra
      refine ⟨?_, h.had, fun hworking ↦ absurd hdone hworking, fun _ ↦ .inl hrest,
        fun _ _ ↦ ⟨hdone, hrest⟩, fun _ ↦ rfl⟩
      have hfifo := h.fifo
      rw [hpending] at hfifo
      exact hfifo
  | timesOut open_ =>
      have hsent : (p.write .heartbeat).sent = p.sent :=
        List.filterMap_append.trans (List.append_nil _)
      refine ⟨?_, ?_, h.unfinished, h.finished,
        fun hended ↦ absurd (open_.symm.trans hended) Bool.false_ne_true, h.closed⟩
      · rw [hsent]
        exact h.fifo
      · rw [hsent]
        exact h.had
  | receives size reading =>
      exact ⟨h.fifo, h.had, h.unfinished, h.finished,
        fun hended _ ↦ h.drained hended (.inl reading),
        fun hphase ↦ absurd (p.client.receive_phase hphase) (by rw [reading]; exact nofun)⟩
  | closed reading drained all =>
      exact ⟨h.fifo, h.had, h.unfinished, h.finished,
        fun hended _ ↦ h.drained hended (.inl reading),
        fun _ ↦ drained⟩
  | lost reading =>
      refine ⟨h.fifo, h.had, h.unfinished, h.finished, fun _ hphase ↦ ?_,
        fun hphase ↦ (nomatch hphase)⟩
      rcases hphase with hphase | hphase <;> exact nomatch hphase
  | cancelled gone =>
      refine ⟨h.fifo, h.had, h.unfinished, h.finished, fun _ hphase ↦ ?_, fun _ ↦ rfl⟩
      rcases hphase with hphase | hphase
      · exact absurd hphase gone
      · exact h.drained (h.closed hphase) (.inr hphase)

theorem prefix_wireBytes (p : SseRun) :
    (wireBytes p.written).take p.received <+: wireBytes p.written := List.take_prefix _ _

/-- What was received stays so while more is written. -/
theorem SseRun.Fetched.write {p : SseRun} (h : p.Fetched) (w : Wire) (hopen : p.ended = false)
    (hclosed : p.client.outcome.phase = .ended → p.ended = true) : (p.write w).Fetched := by
  have hbytes : wireBytes (p.written ++ [w]) = wireBytes p.written ++ wireBytes [w] :=
    wireBytes_append _ _
  have htake : (wireBytes (p.written ++ [w])).take p.received =
      (wireBytes p.written).take p.received := by
    rw [hbytes, List.take_append_of_le_length h.bound]
  constructor
  · change p.received ≤ (wireBytes (p.written ++ [w])).length
    rw [hbytes, List.length_append]
    exact h.bound.trans (Nat.le_add_right _ _)
  · exact htake ▸ h.reading
  · exact htake ▸ h.failed
  · exact htake ▸ h.dispatched
  · exact fun hphase ↦ absurd (hopen.symm.trans (hclosed hphase)) Bool.false_ne_true

theorem SseRun.Fetched.receive {p : SseRun} (h : p.Fetched) (size : ℕ)
    (hreading : p.client.outcome.phase = .reading) :
    p.client.receive (((wireBytes p.written).drop p.received).take size) =
      FetchSse.start.receive ((wireBytes p.written).take
        (min (p.received + size) (wireBytes p.written).length)) := by
  have hchunk : (wireBytes p.written).take p.received ++
      ((wireBytes p.written).drop p.received).take size =
        (wireBytes p.written).take (p.received + size) := List.take_add.symm
  rw [h.reading hreading, FetchSse.receive_append, hchunk, ← List.take_eq_take_min]

theorem SseStep.fetched {p q : SseRun} (hstep : SseStep p q) (horderly : p.Orderly)
    (h : p.Fetched) : q.Fetched := by
  cases hstep with
  | @sends i emission rest open_ _ _ =>
      have hwrite := h.write (.event emission.current) open_ horderly.closed
      exact ⟨hwrite.bound, hwrite.reading, hwrite.failed, hwrite.dispatched, hwrite.ended⟩
  | timesOut open_ => exact h.write _ open_ horderly.closed
  | receives size reading =>
      have hclient := h.receive size reading
      exact ⟨Nat.min_le_right _ _, fun _ ↦ hclient, fun _ _ ↦ hclient,
        congrArg (fun client ↦ client.outcome.dispatched) hclient,
        fun hphase ↦ absurd (p.client.receive_phase hphase) (by rw [reading]; exact nofun)⟩
  | closed reading drained all =>
      refine ⟨h.bound, fun hphase ↦ (nomatch hphase), fun _ hphase ↦ (nomatch hphase),
        h.dispatched, fun _ ↦ ⟨all, ?_⟩⟩
      have hclient := congrArg (fun client ↦ client.outcome.phase) (h.reading reading)
      exact hclient.symm.trans reading
  | lost reading =>
      exact ⟨h.bound, fun hphase ↦ (nomatch hphase), fun _ hphase ↦ (nomatch hphase),
        h.dispatched, fun hphase ↦ (nomatch hphase)⟩
  | _ => exact ⟨h.bound, h.reading, h.failed, h.dispatched, h.ended⟩

theorem SseRun.Orderly.start : SseRun.start.Orderly :=
  ⟨rfl, .nil, fun _ hmem ↦ (nomatch hmem), fun hfinished ↦ (nomatch hfinished),
    fun hended ↦ (nomatch hended), fun hphase ↦ (nomatch hphase)⟩

theorem SseRun.Fetched.start : SseRun.start.Fetched :=
  ⟨Nat.zero_le _, fun _ ↦ rfl, fun _ hphase ↦ (nomatch hphase), rfl,
    fun hphase ↦ (nomatch hphase)⟩

theorem sse_invariant {p : SseRun} (hrun : Relation.ReflTransGen SseStep .start p) :
    p.Orderly ∧ p.Fetched := by
  induction hrun with
  | refl => exact ⟨.start, .start⟩
  | tail _ hstep ih => exact ⟨hstep.orderly ih.1, hstep.fetched ih.1 ih.2⟩

/-! ## What is delivered -/

theorem Outcome.Follows.dispatched {o : Outcome} {events : List SseEvent} (h : o.Follows events) :
    ∃ n, o.dispatched = (events.take n).map SseEvent.parsed ∧
      ∀ e ∈ events.take n, ¬e.IsError := by
  obtain ⟨phase, dispatched⟩ := o
  cases phase with
  | reading => exact ⟨events.length, by rw [List.take_length]; exact h⟩
  | failed message =>
      obtain ⟨before, e, after, rfl, hbefore, _, _, hdispatched⟩ := h
      refine ⟨before.length, ?_⟩
      rw [List.take_left]
      exact ⟨hdispatched, hbefore⟩
  | lost => exact h.elim
  | ended => exact h.elim

theorem SseRun.take_written (p : SseRun) (n : ℕ) :
    (p.written.take n).filterMap Wire.event? <+: p.sent :=
  List.IsPrefix.filterMap _ <| List.take_prefix n p.written

/-- The events as they were written, and those not written as they are. -/
def SseRun.events (p : SseRun) : List SseEvent :=
  p.sent ++ (p.emitted.drop p.sent.length).map Emitted.current

theorem SseRun.Orderly.had_events {p : SseRun} (h : p.Orderly) :
    List.Forall₂ Emitted.Had p.emitted p.events := by
  have hrest : List.Forall₂ Emitted.Had (p.emitted.drop p.sent.length)
      ((p.emitted.drop p.sent.length).map Emitted.current) := by
    rw [List.forall₂_map_right_iff]
    exact List.forall₂_same.mpr fun _ _ ↦ .inl rfl
  have hall := List.rel_append h.had hrest
  rw [← List.take_append_drop p.sent.length p.emitted, SseRun.events]
  exact hall

theorem SseRun.Orderly.events_of_pending_nil {p : SseRun} (h : p.Orderly) (hnil : p.pending = []) :
    p.events = p.sent := by
  have hfifo := congrArg List.length h.fifo
  rw [hnil, List.filterMap_nil, List.append_nil, List.length_range, List.length_range] at hfifo
  rw [SseRun.events, hfifo, List.drop_length, List.map_nil, List.append_nil]

/-- Where the data of no event were changed, the events are those that were emitted. -/
theorem eq_current_of_unchanged {emitted : List Emitted} {events : List SseEvent}
    (h : List.Forall₂ Emitted.Had emitted events)
    (hsame : ∀ emission ∈ emitted, emission.older = []) :
    events = emitted.map Emitted.current := by
  induction h with
  | nil => rfl
  | @cons emission e emitted events hfirst _ ih =>
      obtain ⟨hnone, hrest⟩ := List.forall_mem_cons.mp hsame
      rw [Emitted.Had, hnone, or_iff_left List.not_mem_nil] at hfirst
      rw [hfirst, ih hrest, List.map_cons]

theorem SseRun.delivers {p : SseRun} (horderly : p.Orderly) (hfetched : p.Fetched) :
    p.Delivers p.events := by
  obtain ⟨n, hfollows⟩ := receive_follows (prefix_wireBytes p)
  have hfront : (p.written.take n).filterMap Wire.event? <+: p.events :=
    (p.take_written n).trans (List.prefix_append _ _)
  constructor
  · obtain ⟨m, hdispatched, hplain⟩ := hfollows.dispatched
    have htake : (((p.written.take n).filterMap Wire.event?).take m) <+: p.events :=
      List.IsPrefix.trans ⟨_, List.take_append_drop _ _⟩ hfront
    rw [List.prefix_iff_eq_take] at htake
    rw [htake] at hdispatched hplain
    exact ⟨_, hfetched.dispatched.trans hdispatched, hplain⟩
  · intro hphase
    obtain ⟨hall, hreading⟩ := hfetched.ended hphase
    obtain ⟨hfinished, hpending⟩ := horderly.drained (horderly.closed hphase) (.inr hphase)
    have hevents : p.written.filterMap Wire.event? = p.events :=
      (horderly.events_of_pending_nil hpending).symm
    have hfollows := receive_all_follows p.written
    have hdispatched := hfetched.dispatched
    rw [hall, List.take_length] at hreading hdispatched
    simp only [Outcome.Follows, hreading, hevents] at hfollows
    exact ⟨hfinished, hdispatched.trans hfollows.1, hfollows.2⟩
  · intro message hphase
    have hclient := hfetched.failed message hphase
    rw [← hclient] at hfollows
    simp only [Outcome.Follows, hphase] at hfollows
    obtain ⟨before, e, after, hevents, _, herror, hmessage, hdispatched⟩ := hfollows
    rw [hevents] at hfront
    obtain ⟨later, hlater⟩ := hfront
    have hemitted : p.events = before ++ e :: (after ++ later) := by
      rw [← hlater, List.append_assoc, List.cons_append]
    refine ⟨before.length, e, ?_, herror, hmessage, ?_⟩
    · rw [hemitted, List.getElem?_append_right le_rfl, Nat.sub_self]
      rfl
    · rw [hemitted, List.take_left]
      exact hdispatched

/-- Whatever the threads, the event loop and the network do, the page handles the events
of a worker in their order, each with data that it had, and its end without an error means
that it handled all; they are just the events emitted where nobody changed their data. -/
theorem sse_delivers {p : SseRun} (hrun : Relation.ReflTransGen SseStep .start p) :
    ∃ events, List.Forall₂ Emitted.Had p.emitted events ∧ p.Delivers events ∧
      ((∀ emission ∈ p.emitted, emission.older = []) →
        events = p.emitted.map Emitted.current) := by
  obtain ⟨horderly, hfetched⟩ := sse_invariant hrun
  exact ⟨p.events, horderly.had_events, p.delivers horderly hfetched,
    eq_current_of_unchanged horderly.had_events⟩

/-! ## One event -/

def progressEvent (results : List Json) (h : DistinctElements results) : SseEvent where
  event := "progress".toList
  data := [("results".toList, .arr results)]
  event_ne_nil := by decide
  event_chars := by decide
  distinct := ⟨List.nodup_singleton _, h, trivial⟩

def queuedEvent : SseEvent := progressEvent [.str "a.png".toList] ⟨trivial, trivial⟩

def clearedEvent : SseEvent := progressEvent [] trivial

/-- The event is queued with one result, which is cleared before it is written. -/
def progressEmission : Emitted :=
  (Emitted.ofEvent queuedEvent).change clearedEvent.data clearedEvent.distinct

/-- The event was written after a heartbeat, and nothing was received yet. -/
def progressRun : SseRun :=
  ⟨[progressEmission], .finished, [], [], [.heartbeat, .event clearedEvent], true, 0, .start⟩

theorem progressRun_reached : Relation.ReflTransGen SseStep .start progressRun :=
  .tail (.tail (.tail (.tail (.tail (.tail (.tail (.tail (.tail .refl
    (.emit queuedEvent rfl))
    (.changes (.cons (.changed clearedEvent.data clearedEvent.distinct) .nil)))
    (.returns rfl)) (.closes rfl)) (.puts rfl)) (.puts rfl))
    (.timesOut rfl)) (.sends rfl rfl rfl)) (.ends rfl rfl)

theorem sse_delivers_progress : ∃ (p : SseRun) (events : List SseEvent),
    p.client.outcome.phase = .ended ∧
    p.client.outcome.dispatched = [clearedEvent.parsed] ∧
    List.Forall₂ Emitted.Had p.emitted events ∧ p.Delivers events ∧
      ((∀ emission ∈ p.emitted, emission.older = []) →
        events = p.emitted.map Emitted.current) := by
  obtain ⟨bytes, hbytes⟩ : ∃ bytes, bytes = wireBytes progressRun.written := ⟨_, rfl⟩
  have hplain : ∀ e ∈ progressRun.written.filterMap Wire.event?, ¬e.IsError := by decide
  have hclient : (FetchSse.start.receive ((bytes.drop 0).take bytes.length)).outcome =
      ⟨.reading, [clearedEvent.parsed]⟩ := by
    rw [List.drop_zero, List.take_length, hbytes]
    exact receive_all_reading hplain
  have hreceive := progressRun_reached.tail (.receives bytes.length rfl)
  have hall : min (progressRun.received + bytes.length) (wireBytes progressRun.written).length =
      (wireBytes progressRun.written).length := by
    rw [← hbytes]
    exact Nat.min_eq_right (Nat.le_add_left _ _)
  rw [← hbytes] at hreceive hall
  have hclosed := hreceive.tail (.closed (congrArg Outcome.phase hclient) rfl (hbytes ▸ hall))
  obtain ⟨events, hevents⟩ := sse_delivers hclosed
  refine ⟨_, events, ?_, ?_, hevents⟩
  · rfl
  · exact congrArg Outcome.dispatched hclient

end StorageReconciler
