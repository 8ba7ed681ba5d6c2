import Mathlib.Data.Finset.Card
import Mathlib.Logic.Function.Basic
import Mathlib.Logic.Relation
import StorageReconciler.ArchiveJobs
import StorageReconciler.Foundations.CoalescedLog

/-!
# The event stream of an archive job

The worker of a job logs its events, where progress snapshots take the place of
earlier ones.  Any number of clients read the log, each with a cursor of its own
and at its own pace, until they find the job finished.
-/

namespace StorageReconciler

open Strings CoalescedLog

section Events

variable {β : Type*}

/-- The data of an event: the fields that the log reads and the other ones, or the
message of a failure. -/
inductive EventData (β : Type*) where
  | fields (bucket key phase : Option Str) (rest : β)
  | message (text : Str)

namespace EventData

def bucket : EventData β → Option Str
  | fields bucket _ _ _ => bucket
  | message _ => none

def key : EventData β → Option Str
  | fields _ key _ _ => key
  | message _ => none

def phase : EventData β → Option Str
  | fields _ _ phase _ => phase
  | message _ => none

end EventData

structure JobEvent (β : Type*) where
  event : Str
  data : EventData β

/-- The key under which an event is logged, unless that is its number. -/
inductive EventKey where
  | bytes (key : Option Str)
  | progress (bucket key : Option Str)
  | phase
  deriving DecidableEq

namespace JobEvent

def IsItemDone (e : JobEvent β) : Prop := e.data.phase = some "item_done".toList

instance (e : JobEvent β) : Decidable e.IsItemDone :=
  inferInstanceAs (Decidable (_ = _))

def eventKey (e : JobEvent β) : Option EventKey :=
  if e.event = "archive_bytes".toList then some (.bytes e.data.key)
  else if e.event = "archive_progress".toList ∧ ¬ e.IsItemDone then
    some (.progress e.data.bucket e.data.key)
  else if e.event = "archive_phase".toList ∧ ¬ e.IsItemDone then some .phase
  else none

theorem eventKey_eq_bytes_iff {e : JobEvent β} {k : Option Str} :
    e.eventKey = some (.bytes k) ↔ e.event = "archive_bytes".toList ∧ e.data.key = k := by
  unfold eventKey
  split_ifs with hbytes hprogress hphase
  · rw [Option.some.injEq, EventKey.bytes.injEq]
    exact (and_iff_right hbytes).symm
  · exact iff_of_false (fun h ↦ nomatch h) (fun h ↦ hbytes h.1)
  · exact iff_of_false (fun h ↦ nomatch h) (fun h ↦ hbytes h.1)
  · exact iff_of_false (fun h ↦ nomatch h) (fun h ↦ hbytes h.1)

theorem eventKey_eq_progress_iff {e : JobEvent β} {b k : Option Str} :
    e.eventKey = some (.progress b k) ↔ (e.event = "archive_progress".toList ∧ ¬ e.IsItemDone) ∧
      e.data.bucket = b ∧ e.data.key = k := by
  unfold eventKey
  split_ifs with hbytes hprogress hphase
  · refine iff_of_false (fun h ↦ nomatch h) (fun h ↦ ?_)
    exact absurd (hbytes.symm.trans h.1.1) (by decide)
  · rw [Option.some.injEq, EventKey.progress.injEq]
    exact (and_iff_right hprogress).symm
  · exact iff_of_false (fun h ↦ nomatch h) (fun h ↦ hprogress h.1)
  · exact iff_of_false (fun h ↦ nomatch h) (fun h ↦ hprogress h.1)

/-- The end of an item or of the run. -/
def IsOutcome (e : JobEvent β) : Prop :=
  (e.event = "archive_progress".toList ∨ e.event = "archive_phase".toList) ∧ e.IsItemDone ∨
    e.event = "done".toList ∨ e.event = "archive_failed".toList ∨ e.event = "error".toList

theorem eventKey_of_isOutcome {e : JobEvent β} (h : e.IsOutcome) : e.eventKey = none := by
  unfold eventKey
  rcases h with ⟨hevent | hevent, hdone⟩ | hevent | hevent | hevent
  · rw [hevent, if_neg (by decide), if_neg (fun h ↦ h.2 hdone), if_neg (fun h ↦ h.2 hdone)]
  · rw [hevent, if_neg (by decide), if_neg (fun h ↦ h.2 hdone), if_neg (fun h ↦ h.2 hdone)]
  · simp [hevent]
  · simp [hevent]
  · simp [hevent]

end JobEvent

end Events

/-! ## The worker and the readers -/

section Stream

variable {β : Type*}

/-- How far the worker of a job is.  What `work` raises is reported in two events. -/
inductive WorkPhase where
  | working
  | raised (message : Str)
  | reported (message : Str)
  | closing
  | finished
  deriving DecidableEq

/-- A job, its event log with all events ever emitted, and its worker. -/
structure JobState (β : Type*) where
  job : ArchiveJob
  log : EventLog EventKey (JobEvent β)
  emitted : List (JobEvent β)
  phase : WorkPhase

namespace JobState

variable (s : JobState β)

def emit (e : JobEvent β) : JobState β :=
  { s with log := s.log.append e.eventKey e, emitted := s.emitted ++ [e] }

def finished : Bool := decide (s.phase = .finished)

end JobState

/-- The steps of `ArchiveJobs._run`. -/
inductive WorkStep : JobState β → JobState β → Prop where
  | emit {s : JobState β} (e : JobEvent β) (working : s.phase = .working) : WorkStep s (s.emit e)
  | returns {s : JobState β} (working : s.phase = .working) :
      WorkStep s { s with phase := .closing }
  | raises {s : JobState β} (message : Str) (working : s.phase = .working) :
      WorkStep s { s with phase := .raised message }
  | archiveFailed {s : JobState β} {message : Str} (raised : s.phase = .raised message) :
      WorkStep s
        { s.emit ⟨"archive_failed".toList, .message message⟩ with phase := .reported message }
  | error {s : JobState β} {message : Str} (reported : s.phase = .reported message) :
      WorkStep s { s.emit ⟨"error".toList, .message message⟩ with phase := .closing }
  | finish {s : JobState β} (closing : s.phase = .closing) :
      WorkStep s { s with phase := .finished }

inductive Frame (β : Type*) where
  | archiveJob (jobId : Str) (total : ℕ)
  | event (sequence : ℕ) (e : JobEvent β)
  | heartbeat

def Frame.event? : Frame β → Option (ℕ × JobEvent β)
  | event sequence e => some (sequence, e)
  | _ => none

/-- How far a reader is: it has asked for events and sends them one by one, or waits
to ask again. -/
inductive StreamPhase (β : Type*) where
  | unconnected
  | waiting
  | sending (events pending : List (ℕ × JobEvent β)) (finished : Bool)
  | ended

structure Stream (β : Type*) where
  phase : StreamPhase β
  cursor : ℕ
  idle : ℕ
  frames : List (Frame β)

namespace Stream

variable (r : Stream β)

def start : Stream β := ⟨.unconnected, 0, 0, []⟩

/-- The events among the frames that were sent. -/
def events : List (ℕ × JobEvent β) := r.frames.filterMap Frame.event?

/-- The rest of the loop's body, once the events are sent and the job goes on. -/
def pause (events : List (ℕ × JobEvent β)) : Stream β :=
  let idle := if events = [] then r.idle + 1 else 0
  if 40 ≤ idle then { r with phase := .waiting, idle := 0, frames := r.frames ++ [.heartbeat] }
  else { r with phase := .waiting, idle := idle }

theorem pause_eq (events : List (ℕ × JobEvent β)) :
    (r.pause events).phase = .waiting ∧ (r.pause events).cursor = r.cursor ∧
      (r.pause events).events = r.events := by
  unfold pause
  generalize (if events = [] then r.idle + 1 else 0) = idle
  by_cases hidle : 40 ≤ idle <;> simp [hidle, Stream.events, Frame.event?]

end Stream

/-- The steps of `ArchiveJobs.stream`. -/
inductive ReadStep (s : JobState β) : Stream β → Stream β → Prop where
  | connect {r : Stream β} (unconnected : r.phase = .unconnected) :
      ReadStep s r ⟨.waiting, 0, 0, [.archiveJob s.job.id s.job.keys.card]⟩
  | poll {r : Stream β} (waiting : r.phase = .waiting) :
      ReadStep s r { r with
        phase := .sending (s.log.after r.cursor) (s.log.after r.cursor) s.finished }
  | send {r : Stream β} {events pending : List (ℕ × JobEvent β)} {sequence : ℕ} {e : JobEvent β}
      {finished : Bool} (sending : r.phase = .sending events ((sequence, e) :: pending) finished) :
      ReadStep s r { r with
        phase := .sending events pending finished
        cursor := sequence
        frames := r.frames ++ [.event sequence e] }
  | pause {r : Stream β} {events : List (ℕ × JobEvent β)}
      (sent : r.phase = .sending events [] false) : ReadStep s r (r.pause events)
  | stop {r : Stream β} {events : List (ℕ × JobEvent β)}
      (sent : r.phase = .sending events [] true) : ReadStep s r { r with phase := .ended }

structure JobRun (β : Type*) where
  state : JobState β
  readers : ℕ → Stream β

inductive JobRunStep : JobRun β → JobRun β → Prop where
  | work {p : JobRun β} {s : JobState β} (h : WorkStep p.state s) : JobRunStep p ⟨s, p.readers⟩
  | read {p : JobRun β} {i : ℕ} {r : Stream β} (h : ReadStep p.state (p.readers i) r) :
      JobRunStep p ⟨p.state, Function.update p.readers i r⟩

def JobRun.start (job : ArchiveJob) : JobRun β :=
  ⟨⟨job, .empty, [], .working⟩, fun _ ↦ .start⟩

end Stream

/-! ## What a reader has received -/

section Delivery

variable {β : Type*}

/-- The log is that of the emitted events. -/
def JobState.IsLogged (s : JobState β) : Prop := Represents JobEvent.eventKey s.log s.emitted

theorem JobState.IsLogged.emit {s : JobState β} (h : s.IsLogged) (e : JobEvent β) :
    (s.emit e).IsLogged := Represents.append h e

theorem WorkStep.isLogged {s s' : JobState β} (hstep : WorkStep s s') (h : s.IsLogged) :
    s'.IsLogged := by
  cases hstep with
  | emit e => exact h.emit e
  | archiveFailed => exact h.emit _
  | error => exact h.emit _
  | _ => exact h

theorem WorkStep.emitted_cases {s s' : JobState β} (hstep : WorkStep s s') :
    s.finished = false ∧ ∃ new, s'.emitted = s.emitted ++ new := by
  cases hstep with
  | emit e working => exact ⟨by simp [JobState.finished, working], [e], rfl⟩
  | returns working => exact ⟨by simp [JobState.finished, working], [], by simp⟩
  | raises message working => exact ⟨by simp [JobState.finished, working], [], by simp⟩
  | archiveFailed raised => exact ⟨by simp [JobState.finished, raised], _, rfl⟩
  | error reported => exact ⟨by simp [JobState.finished, reported], _, rfl⟩
  | finish closing => exact ⟨by simp [JobState.finished, closing], [], by simp⟩

/-- What a reader has received and is about to send, compared with the events up to its
last request. -/
def Tracks (s : JobState β) (r : Stream β) : Prop :=
  match r.phase with
  | .unconnected => True
  | .waiting => r.cursor ≤ s.emitted.length ∧
      Covers JobEvent.eventKey (s.emitted.take r.cursor) r.events
  | .sending _ pending finished => ∃ asked ≤ s.emitted.length,
      Covers JobEvent.eventKey (s.emitted.take asked) (r.events ++ pending) ∧
        (pending.map Prod.fst).getLastD r.cursor = asked ∧
        (finished = true → s.finished = true ∧ asked = s.emitted.length)
  | .ended => s.finished = true ∧ Covers JobEvent.eventKey s.emitted r.events

theorem Tracks.work {s s' : JobState β} {r : Stream β} (h : Tracks s r) (hstep : WorkStep s s') :
    Tracks s' r := by
  obtain ⟨hunfinished, new, hnew⟩ := hstep.emitted_cases
  have htake : ∀ m ≤ s.emitted.length, s'.emitted.take m = s.emitted.take m := by
    intro m hm
    rw [hnew, List.take_append_of_le_length hm]
  have hlength : s.emitted.length ≤ s'.emitted.length := by simp [hnew]
  unfold Tracks at h ⊢
  cases hphase : r.phase with
  | unconnected => trivial
  | waiting =>
      simp only [hphase] at h ⊢
      refine ⟨h.1.trans hlength, ?_⟩
      rw [htake _ h.1]
      exact h.2
  | sending events pending finished =>
      simp only [hphase] at h ⊢
      obtain ⟨asked, hasked, hcovers, hlast, hfinished⟩ := h
      refine ⟨asked, hasked.trans hlength, ?_, hlast, ?_⟩
      · rw [htake _ hasked]
        exact hcovers
      · intro hdone
        have hcontra := (hfinished hdone).1
        rw [hunfinished] at hcontra
        cases hcontra
  | ended =>
      simp only [hphase] at h
      rw [hunfinished] at h
      cases h.1

theorem Tracks.read {s : JobState β} {r r' : Stream β} (h : Tracks s r) (hlogged : s.IsLogged)
    (hstep : ReadStep s r r') : Tracks s r' := by
  cases hstep with
  | connect => exact ⟨Nat.zero_le _, covers_nil⟩
  | poll waiting =>
      unfold Tracks at h
      simp only [waiting] at h
      refine ⟨s.emitted.length, le_rfl, ?_, hlogged.getLastD_after h.1, fun hdone ↦ ⟨hdone, rfl⟩⟩
      rw [List.take_length]
      exact h.2.append_after hlogged
  | @send events pending sequence e finished sending =>
      unfold Tracks at h
      simp only [sending] at h
      obtain ⟨asked, hasked, hcovers, hlast, hfinished⟩ := h
      refine ⟨asked, hasked, ?_, ?_, hfinished⟩
      · have hevents : r.events ++ (sequence, e) :: pending =
            (r.frames ++ [Frame.event sequence e]).filterMap Frame.event? ++ pending := by
          simp [Stream.events, Frame.event?]
        exact hevents ▸ hcovers
      · rwa [List.map_cons, List.getLastD_cons] at hlast
  | @pause events sent =>
      obtain ⟨hphase, hcursor, hevents⟩ := r.pause_eq events
      unfold Tracks at h ⊢
      simp only [sent] at h
      simp only [hphase, hcursor, hevents]
      obtain ⟨asked, hasked, hcovers, hlast, _⟩ := h
      obtain rfl : r.cursor = asked := hlast
      rw [List.append_nil] at hcovers
      exact ⟨hasked, hcovers⟩
  | @stop events sent =>
      unfold Tracks at h
      simp only [sent] at h
      obtain ⟨asked, _, hcovers, _, hfinished⟩ := h
      obtain ⟨hdone, rfl⟩ := hfinished trivial
      rw [List.append_nil, List.take_length] at hcovers
      exact ⟨hdone, hcovers⟩

theorem tracks_of_reachable {job : ArchiveJob} {p : JobRun β}
    (hrun : Relation.ReflTransGen JobRunStep (JobRun.start job) p) :
    p.state.IsLogged ∧ ∀ i, Tracks p.state (p.readers i) := by
  induction hrun with
  | refl => exact ⟨represents_empty, fun i ↦ trivial⟩
  | @tail p p' _ hstep ih =>
      obtain ⟨hlogged, htracks⟩ := ih
      cases hstep with
      | work hwork => exact ⟨hwork.isLogged hlogged, fun i ↦ (htracks i).work hwork⟩
      | @read i r hread =>
          refine ⟨hlogged, fun j ↦ ?_⟩
          change Tracks p.state (Function.update p.readers i r j)
          by_cases hj : j = i
          · subst hj
            rw [Function.update_self]
            exact (htracks j).read hlogged hread
          · rw [Function.update_of_ne hj]
            exact htracks j

/-- The events a stream sent are among those emitted, in the order of their numbers; each
that has no key was sent once, and of those with one the last of each key was. -/
structure DeliveredOutcomes (emitted : List (JobEvent β)) (sent : List (ℕ × JobEvent β)) :
    Prop where
  increasing : (sent.map Prod.fst).Pairwise (· < ·)
  genuine : ∀ n e, (n, e) ∈ sent → ∃ s, n = s + 1 ∧ emitted[s]? = some e
  once : ∀ s e, emitted[s]? = some e → e.eventKey = none →
    sent.filter (fun x ↦ decide (x.1 = s + 1)) = [(s + 1, e)]
  outcomes : ∀ s e, emitted[s]? = some e → e.IsOutcome →
    sent.filter (fun x ↦ decide (x.1 = s + 1)) = [(s + 1, e)]
  latest : ∀ s e k, emitted[s]? = some e → e.eventKey = some k →
    (∀ s' e', s < s' → emitted[s']? = some e' → e'.eventKey ≠ some k) → (s + 1, e) ∈ sent

/-- A stream that has come to its end has missed no outcome, wherever its requests fell
among the events. -/
theorem stream_delivered {job : ArchiveJob} {p : JobRun β} {i : ℕ}
    (hrun : Relation.ReflTransGen JobRunStep (JobRun.start job) p)
    (hended : (p.readers i).phase = .ended) :
    DeliveredOutcomes p.state.emitted (p.readers i).events := by
  have htracks := (tracks_of_reachable hrun).2 i
  unfold Tracks at htracks
  simp only [hended] at htracks
  have hcovers := htracks.2
  refine ⟨List.pairwise_map.mpr hcovers.increasing, fun n e ↦ hcovers.genuine (n, e), ?_, ?_, ?_⟩
  · intro s e hget hkey
    exact hcovers.once hget hkey
  · intro s e hget houtcome
    exact hcovers.once hget (JobEvent.eventKey_of_isOutcome houtcome)
  · intro s e k hget hkey hlast
    refine hcovers.complete s e ⟨hget, ?_⟩
    intro k' hk'
    obtain rfl := Option.some.inj (hkey.symm.trans hk')
    exact hlast

/-- A reader that asks between two snapshots of an item and after the end receives both,
and one that asks after the end the second one only. -/
theorem stream_delivered_of_snapshots :
    ∃ p : JobRun ℕ, (p.readers 0).phase = .ended ∧ (p.readers 1).phase = .ended ∧
      (p.readers 0).events.map Prod.fst = [1, 2] ∧ (p.readers 1).events.map Prod.fst = [2] ∧
        DeliveredOutcomes p.state.emitted (p.readers 0).events ∧
          DeliveredOutcomes p.state.emitted (p.readers 1).events := by
  let job : ArchiveJob := ⟨"a1".toList, "source".toList, {("uploads".toList, "a.png".toList)}⟩
  let snapshot (bytes : ℕ) : JobEvent ℕ :=
    ⟨"archive_bytes".toList, .fields none (some "a.png".toList) none bytes⟩
  have hrun : Relation.ReflTransGen JobRunStep (JobRun.start job) _ :=
    .tail (.tail (.tail (.tail (.tail (.tail (.tail (.tail (.tail (.tail (.tail (.tail (.tail
      (.tail (.tail .refl
      (.read (i := 0) (.connect rfl)))
      (.work (.emit (snapshot 10) rfl)))
      (.read (i := 0) (.poll rfl)))
      (.work (.emit (snapshot 20) rfl)))
      (.read (i := 0) (.send rfl)))
      (.work (.returns rfl)))
      (.read (i := 0) (.pause rfl)))
      (.work (.finish rfl)))
      (.read (i := 0) (.poll rfl)))
      (.read (i := 0) (.send rfl)))
      (.read (i := 0) (.stop rfl)))
      (.read (i := 1) (.connect rfl)))
      (.read (i := 1) (.poll rfl)))
      (.read (i := 1) (.send rfl)))
      (.read (i := 1) (.stop rfl))
  exact ⟨_, rfl, rfl, rfl, rfl, stream_delivered hrun rfl, stream_delivered hrun rfl⟩

end Delivery

end StorageReconciler
