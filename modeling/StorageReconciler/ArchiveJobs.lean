import Mathlib.Data.Finset.Basic
import Mathlib.Data.List.Pairwise
import StorageReconciler.Foundations.OrderedDict
import StorageReconciler.Foundations.Strings

/-!
# Archive jobs

A request to archive either connects to a job that is at work on its items, or
starts one whose worker goes on by itself.  Eight jobs stay registered, and the
oldest makes room for the next one, whether it has finished or not.
-/

namespace StorageReconciler

open Strings

structure ArchiveJob where
  id : Str
  provider : Str
  keys : Finset (Str × Str)
  deriving DecidableEq

/-- The registered jobs, the workers started so far, and the ids of those that
have finished. -/
structure ArchiveJobs where
  jobs : OrderedDict Str ArchiveJob
  workers : List ArchiveJob
  finished : Finset Str

structure JobRequest where
  provider : Str
  items : List (Str × Str)
  jobId : Option Str

def JobRequest.keys (request : JobRequest) : Finset (Str × Str) := request.items.toFinset

/-- The job a request starts. -/
def JobRequest.job (request : JobRequest) (uuid : Str) : ArchiveJob :=
  ⟨uuid, request.provider, request.keys⟩

namespace ArchiveJobs

def start : ArchiveJobs := ⟨.empty, [], ∅⟩

variable (s : ArchiveJobs) (request : JobRequest) (uuid : Str)

def isFinished (job : ArchiveJob) : Bool := decide (job.id ∈ s.finished)

/-- The workers that were started and have not finished. -/
def running : List ArchiveJob := s.workers.filter fun job ↦ !s.isFinished job

/-- An unfinished job of the provider that covers the items. -/
def covers (job : ArchiveJob) : Bool :=
  !s.isFinished job && decide (job.provider = request.provider) &&
    decide (request.keys ⊆ job.keys)

def overlaps (job : ArchiveJob) : Bool :=
  !s.isFinished job && decide (¬ Disjoint request.keys job.keys)

def evictOldest : ArchiveJobs :=
  if 8 ≤ s.jobs.entries.length then { s with jobs := s.jobs.popOldest } else s

def startWorker (job : ArchiveJob) : ArchiveJobs :=
  { s with jobs := s.jobs.insert job.id job, workers := s.workers ++ [job] }

/-- `ArchiveJobs.connect`, with the id that a new job gets. -/
def connect : Except Str ArchiveJob × ArchiveJobs :=
  if request.jobId.getD [] ≠ [] then
    match s.jobs.get? (request.jobId.getD []) with
    | none => (.error ("Proses tidak tersedia setelah server restart. " ++
        "Muat ulang report untuk melanjutkan.").toList, s)
    | some job =>
        if job.provider ≠ request.provider ∨ ¬ request.keys ⊆ job.keys then
          (.error "Report/provider berbeda dari proses yang ingin disambungkan.".toList, s)
        else (.ok job, s)
  else
    match s.jobs.values.find? (s.covers request) with
    | some job => (.ok job, s)
    | none =>
        if s.jobs.values.any (s.overlaps request) then
          (.error "Sebagian file pada report ini sedang diproses di proses arsip lain.".toList, s)
        else (.ok (request.job uuid), s.evictOldest.startWorker (request.job uuid))

/-- `_run` ends. -/
def finish (id : Str) : ArchiveJobs := { s with finished := insert id s.finished }

/-- The request names no job, and is neither covered by an unfinished job that is
registered nor at odds with one. -/
structure Admits : Prop where
  unnamed : request.jobId.getD [] = []
  uncovered : ∀ job ∈ s.jobs.values, s.covers request job = false
  apart : ∀ job ∈ s.jobs.values, s.overlaps request job = false

/-- A request either changes nothing and connects to no job but a registered one, or is
admitted and starts a job. -/
theorem connect_cases :
    ((s.connect request uuid).2 = s ∧
      ∀ job, (s.connect request uuid).1 = .ok job → job ∈ s.jobs.values) ∨
    s.Admits request ∧ s.connect request uuid =
      (.ok (request.job uuid), s.evictOldest.startWorker (request.job uuid)) := by
  unfold connect
  by_cases hunnamed : request.jobId.getD [] = []
  · rw [if_neg (not_not.mpr hunnamed)]
    cases hfind : s.jobs.values.find? (s.covers request) with
    | some job =>
        refine .inl ⟨rfl, ?_⟩
        intro job' hjob
        obtain rfl := Except.ok.inj hjob
        exact List.mem_of_find?_eq_some hfind
    | none =>
        by_cases hoverlaps : s.jobs.values.any (s.overlaps request) = true
        · exact .inl (by simp [hoverlaps])
        · have huncovered : ∀ job ∈ s.jobs.values, s.covers request job = false :=
            fun job hjob ↦ Bool.eq_false_iff.mpr (List.find?_eq_none.mp hfind job hjob)
          have hapart : ∀ job ∈ s.jobs.values, s.overlaps request job = false :=
            fun job hjob ↦ Bool.eq_false_iff.mpr
              fun h ↦ hoverlaps (List.any_eq_true.mpr ⟨job, hjob, h⟩)
          exact .inr ⟨⟨hunnamed, huncovered, hapart⟩, by simp [hoverlaps]⟩
  · left
    rw [if_pos hunnamed]
    cases hget : s.jobs.get? (request.jobId.getD []) with
    | none => exact ⟨rfl, fun job hjob ↦ by cases hjob⟩
    | some job =>
        have hmem : job ∈ s.jobs.values :=
          List.mem_map_of_mem (OrderedDict.get?_eq_some_iff.mp hget)
        by_cases hother : job.provider ≠ request.provider ∨ ¬ request.keys ⊆ job.keys
        · simp [hother]
        · simp [hother, hmem]

theorem connect_of_admits (hadmits : s.Admits request) :
    s.connect request uuid =
      (.ok (request.job uuid), s.evictOldest.startWorker (request.job uuid)) := by
  have hfind : s.jobs.values.find? (s.covers request) = none :=
    List.find?_eq_none.mpr fun job hjob ↦ by simp [hadmits.uncovered job hjob]
  have hoverlaps : s.jobs.values.any (s.overlaps request) = false :=
    List.any_eq_false.mpr fun job hjob ↦ by simp [hadmits.apart job hjob]
  simp [connect, hadmits.unnamed, hfind, hoverlaps]

theorem connect_of_find? {job : ArchiveJob} (hunnamed : request.jobId.getD [] = [])
    (hfind : s.jobs.values.find? (s.covers request) = some job) :
    s.connect request uuid = (.ok job, s) := by
  simp [connect, hunnamed, hfind]

end ArchiveJobs

/-- A request comes in, under an id that no job has yet, or a worker finishes. -/
inductive JobStep : Option JobRequest → ArchiveJobs → ArchiveJobs → Prop where
  | connect {s : ArchiveJobs} (request : JobRequest) {uuid : Str}
      (fresh : ∀ job ∈ s.workers, job.id ≠ uuid) :
      JobStep (some request) s (s.connect request uuid).2
  | finish {s : ArchiveJobs} {job : ArchiveJob} (running : job ∈ s.running) :
      JobStep none s (s.finish job.id)

/-- If the request starts a job while eight are registered, the oldest of these has
finished. -/
def ArchiveJobs.EvictsFinished (s : ArchiveJobs) (request : JobRequest) : Prop :=
  s.Admits request → 8 ≤ s.jobs.entries.length →
    ∀ job ∈ s.jobs.values.head?, s.isFinished job = true

theorem ArchiveJobs.evictsFinished_of_lt {s : ArchiveJobs} {request : JobRequest}
    (hroom : s.jobs.entries.length < 8) : s.EvictsFinished request :=
  fun _ hfull ↦ absurd hfull (Nat.not_le.mpr hroom)

/-- Steps of the registry, each request of which evicts no job at work. -/
def RetainingStep (s s' : ArchiveJobs) : Prop :=
  ∃ action, JobStep action s s' ∧ ∀ request ∈ action, s.EvictsFinished request

/-- Workers at work share no item, and a request that one of them covers connects to
such a worker, and to the one itself if it has an item. -/
structure ArchiveJobs.IsExclusive (s : ArchiveJobs) : Prop where
  apart : s.running.Pairwise fun job other ↦ Disjoint job.keys other.keys
  attaches : ∀ job ∈ s.running, ∀ (request : JobRequest) (uuid : Str),
    request.jobId.getD [] = [] → request.provider = job.provider → request.keys ⊆ job.keys →
    ∃ found ∈ s.running, s.connect request uuid = (.ok found, s) ∧
      found.provider = request.provider ∧ request.keys ⊆ found.keys ∧
      (request.items ≠ [] → found = job)

/-! ## What the registry knows -/

section Tracked

variable {s s' : ArchiveJobs} {request : JobRequest} {uuid : Str} {job : ArchiveJob}

theorem ArchiveJobs.mem_running :
    job ∈ s.running ↔ job ∈ s.workers ∧ s.isFinished job = false := by
  simp [ArchiveJobs.running]

/-- What every step of the registry keeps. -/
structure ArchiveJobs.IsTracked (s : ArchiveJobs) : Prop where
  named : ∀ e ∈ s.jobs.entries, e.1 = e.2.id
  started : ∀ job ∈ s.jobs.values, job ∈ s.workers
  finished : ∀ id ∈ s.finished, ∃ job ∈ s.workers, job.id = id

/-- What steps keep that evict no job at work. -/
structure ArchiveJobs.IsRetained (s : ArchiveJobs) : Prop extends s.IsTracked where
  registered : ∀ job ∈ s.running, job ∈ s.jobs.values
  apart : s.running.Pairwise fun job other ↦ Disjoint job.keys other.keys

namespace ArchiveJobs

theorem isTracked_start : start.IsTracked where
  named := by simp [start, OrderedDict.empty]
  started := by simp [start, OrderedDict.values, OrderedDict.empty]
  finished := by simp [start]

theorem isRetained_start : start.IsRetained where
  toIsTracked := isTracked_start
  registered := by simp [start, running]
  apart := by simp [start, running]

theorem evictOldest_entries_subset : s.evictOldest.jobs.entries ⊆ s.jobs.entries := by
  unfold evictOldest
  split_ifs
  · exact List.tail_subset _
  · exact List.Subset.refl _

@[simp] theorem evictOldest_workers : s.evictOldest.workers = s.workers := by
  unfold evictOldest
  split_ifs <;> rfl

@[simp] theorem evictOldest_finished : s.evictOldest.finished = s.finished := by
  unfold evictOldest
  split_ifs <;> rfl

theorem IsTracked.entries_startWorker (h : s.IsTracked) (job : ArchiveJob)
    (fresh : ∀ worker ∈ s.workers, worker.id ≠ job.id) :
    (s.evictOldest.startWorker job).jobs.entries =
      s.evictOldest.jobs.entries ++ [(job.id, job)] := by
  apply OrderedDict.entries_insert_of_notMem
  intro hmem
  obtain ⟨e, he, hid⟩ := List.mem_map.mp hmem
  have hentry := evictOldest_entries_subset he
  have hworker := h.started e.2 (List.mem_map_of_mem hentry)
  exact fresh e.2 hworker ((h.named e hentry).symm.trans hid)

theorem IsTracked.startWorker (h : s.IsTracked) (job : ArchiveJob)
    (fresh : ∀ worker ∈ s.workers, worker.id ≠ job.id) :
    (s.evictOldest.startWorker job).IsTracked := by
  have hentries := h.entries_startWorker job fresh
  have hworkers : (s.evictOldest.startWorker job).workers = s.workers ++ [job] := by
    simp [ArchiveJobs.startWorker]
  refine ⟨?_, ?_, ?_⟩
  · intro e he
    rw [hentries] at he
    rcases List.mem_append.mp he with hold | hnew
    · exact h.named e (evictOldest_entries_subset hold)
    · rw [List.mem_singleton.mp hnew]
  · intro job' hjob
    obtain ⟨e, he, rfl⟩ := List.mem_map.mp hjob
    rw [hworkers]
    rw [hentries] at he
    rcases List.mem_append.mp he with hold | hnew
    · have hvalue := List.mem_map_of_mem (f := Prod.snd) (evictOldest_entries_subset hold)
      exact List.mem_append_left _ (h.started e.2 hvalue)
    · simp [List.mem_singleton.mp hnew]
  · intro id hid
    have hid' : id ∈ s.finished := by simpa [ArchiveJobs.startWorker] using hid
    obtain ⟨worker, hworker, rfl⟩ := h.finished id hid'
    exact ⟨worker, by simp [hworkers, hworker], rfl⟩

theorem IsTracked.running_startWorker (h : s.IsTracked) (job : ArchiveJob)
    (fresh : ∀ worker ∈ s.workers, worker.id ≠ job.id) :
    (s.evictOldest.startWorker job).running = s.running ++ [job] := by
  have hnew : job.id ∉ s.finished := by
    intro hfinished
    obtain ⟨worker, hworker, hid⟩ := h.finished job.id hfinished
    exact fresh worker hworker hid
  have hfilter : (s.evictOldest.startWorker job).running =
      (s.workers ++ [job]).filter fun job' ↦ !s.isFinished job' := by
    simp [running, ArchiveJobs.startWorker, isFinished]
  rw [hfilter, List.filter_append]
  simp [running, isFinished, hnew]

theorem mem_values_evictOldest (hadmits : s.Admits request) (hevicts : s.EvictsFinished request)
    (hrunning : s.isFinished job = false) (hjob : job ∈ s.jobs.values) :
    job ∈ s.evictOldest.jobs.values := by
  unfold evictOldest
  split_ifs with hfull
  · have hhead := hevicts hadmits hfull
    have htail : s.jobs.popOldest.values = s.jobs.values.tail := List.map_tail
    change job ∈ s.jobs.popOldest.values
    rw [htail]
    cases hvalues : s.jobs.values with
    | nil => simp [hvalues] at hjob
    | cons oldest rest =>
        rw [hvalues] at hjob
        rcases List.mem_cons.mp hjob with rfl | hrest
        · have hfinished := hhead job (by simp [hvalues])
          simp [hfinished] at hrunning
        · exact hrest
  · exact hjob

theorem IsRetained.startWorker (h : s.IsRetained) (hadmits : s.Admits request)
    (hevicts : s.EvictsFinished request) (fresh : ∀ worker ∈ s.workers, worker.id ≠ uuid) :
    (s.evictOldest.startWorker (request.job uuid)).IsRetained := by
  have hrunning := h.toIsTracked.running_startWorker (request.job uuid) fresh
  have hentries := h.toIsTracked.entries_startWorker (request.job uuid) fresh
  have hvalues : (s.evictOldest.startWorker (request.job uuid)).jobs.values =
      s.evictOldest.jobs.values ++ [request.job uuid] := by
    simp [OrderedDict.values, hentries]
  refine ⟨h.toIsTracked.startWorker (request.job uuid) fresh, ?_, ?_⟩
  · intro job hjob
    rw [hvalues]
    rw [hrunning] at hjob
    rcases List.mem_append.mp hjob with hold | hnew
    · have hregistered := h.registered job hold
      have hunfinished := (mem_running.mp hold).2
      exact List.mem_append_left _
        (mem_values_evictOldest hadmits hevicts hunfinished hregistered)
    · exact List.mem_append_right _ hnew
  · rw [hrunning]
    refine List.pairwise_append.mpr ⟨h.apart, List.pairwise_singleton _ _, ?_⟩
    intro job hjob new hnew
    obtain rfl := List.mem_singleton.mp hnew
    -- the request overlaps no registered job at work, and all of those at work are registered
    have hoverlaps := hadmits.apart job (h.registered job hjob)
    have hunfinished := (mem_running.mp hjob).2
    have hdisjoint : Disjoint request.keys job.keys := by
      simpa [overlaps, hunfinished] using hoverlaps
    exact hdisjoint.symm

theorem IsRetained.connect (h : s.IsRetained) (hevicts : s.EvictsFinished request)
    (fresh : ∀ worker ∈ s.workers, worker.id ≠ uuid) :
    (s.connect request uuid).2.IsRetained := by
  rcases s.connect_cases request uuid with ⟨hsame, _⟩ | ⟨hadmits, hstarts⟩
  · rw [hsame]
    exact h
  · rw [hstarts]
    exact h.startWorker hadmits hevicts fresh

theorem running_finish_sublist (id : Str) : (s.finish id).running.Sublist s.running := by
  apply List.monotone_filter_right
  intro job hjob
  simp only [isFinished, finish, Finset.mem_insert, not_or, Bool.not_eq_true',
    decide_eq_false_iff_not] at hjob ⊢
  exact hjob.2

theorem IsRetained.finish (h : s.IsRetained) (hjob : job ∈ s.running) :
    (s.finish job.id).IsRetained := by
  have hsublist := running_finish_sublist (s := s) job.id
  refine ⟨⟨h.named, h.started, ?_⟩, ?_, h.apart.sublist hsublist⟩
  · intro id hid
    rcases Finset.mem_insert.mp hid with rfl | hold
    · exact ⟨job, (mem_running.mp hjob).1, rfl⟩
    · exact h.finished id hold
  · intro job' hjob'
    exact h.registered job' (hsublist.subset hjob')

theorem IsRetained.step (h : s.IsRetained) (hstep : RetainingStep s s') : s'.IsRetained := by
  obtain ⟨action, hact, hevicts⟩ := hstep
  cases hact with
  | connect request fresh => exact h.connect (hevicts request rfl) fresh
  | finish running => exact h.finish running

theorem IsRetained.reachable (hrun : Relation.ReflTransGen RetainingStep start s) :
    s.IsRetained := by
  induction hrun with
  | refl => exact isRetained_start
  | tail _ hstep ih => exact ih.step hstep

/-- The first job that covers a request is at work, and is the only one that does. -/
theorem IsRetained.isExclusive (h : s.IsRetained) : s.IsExclusive := by
  refine ⟨h.apart, ?_⟩
  intro job hjob request uuid hunnamed hprovider hkeys
  have hcovers : s.covers request job = true := by
    simp [covers, hprovider, hkeys, (mem_running.mp hjob).2]
  obtain ⟨found, hfind⟩ := Option.isSome_iff_exists.mp
    (List.find?_isSome.mpr ⟨job, h.registered job hjob, hcovers⟩)
  have hfound : (s.isFinished found = false ∧ found.provider = request.provider) ∧
      request.keys ⊆ found.keys := by
    simpa [covers] using List.find?_some hfind
  have hrunning : found ∈ s.running :=
    mem_running.mpr ⟨h.started found (List.mem_of_find?_eq_some hfind), hfound.1.1⟩
  refine ⟨found, hrunning, s.connect_of_find? request uuid hunnamed hfind, hfound.1.2,
    hfound.2, ?_⟩
  intro hitems
  obtain ⟨key, hkey⟩ := List.exists_mem_of_ne_nil _ hitems
  have hmem : key ∈ request.keys := List.mem_toFinset.mpr hkey
  by_contra hne
  have hsymm : Std.Symm fun job other : ArchiveJob ↦ Disjoint job.keys other.keys :=
    ⟨fun _ _ hd ↦ hd.symm⟩
  have hdisjoint : Disjoint found.keys job.keys := h.apart.forall hrunning hjob hne
  exact Finset.disjoint_left.mp hdisjoint (hfound.2 hmem) (hkeys hmem)

end ArchiveJobs

end Tracked

/-- In every run whose requests evict no job at work, workers at work share no item and
stay within reach. -/
theorem retainingRun_isExclusive {s : ArchiveJobs}
    (hrun : Relation.ReflTransGen RetainingStep .start s) : s.IsExclusive :=
  (ArchiveJobs.IsRetained.reachable hrun).isExclusive

/-! ## Evicting a job at work -/

namespace ArchiveJobs

section Evicted

variable {s : ArchiveJobs} {request : JobRequest} {uuid : Str} {oldest : ArchiveJob}

theorem IsTracked.oldest_notMem_tail (h : s.IsTracked) (holdest : oldest ∈ s.jobs.values.head?) :
    oldest ∉ s.jobs.values.tail := by
  have hnodup := s.jobs.nodup
  unfold OrderedDict.values at holdest ⊢
  have hnamed := h.named
  cases hentries : s.jobs.entries with
  | nil => simp
  | cons e rest =>
      rw [hentries] at holdest hnodup hnamed
      obtain rfl : e.2 = oldest := by simpa using holdest
      intro hmem
      obtain ⟨e', he', hjob⟩ := List.mem_map.mp hmem
      have hid : e'.1 = e.1 := by
        rw [hnamed e' (List.mem_cons_of_mem e he'), hjob, hnamed e List.mem_cons_self]
      exact (List.nodup_cons.mp hnodup).1 (hid ▸ List.mem_map_of_mem he')

/-- A job with items that is evicted at work is out of reach from then on. -/
theorem IsTracked.not_isExclusive (h : s.IsTracked)
    (fresh : ∀ worker ∈ s.workers, worker.id ≠ uuid)
    (hevicts : ¬ s.EvictsFinished request) (hkeys : ∀ job ∈ s.workers, job.keys.Nonempty) :
    ¬ (s.connect request uuid).2.IsExclusive := by
  unfold EvictsFinished at hevicts
  push Not at hevicts
  obtain ⟨hadmits, hfull, oldest, holdest, hunfinished⟩ := hevicts
  have hrunning := Bool.eq_false_iff.mpr hunfinished
  rw [connect_of_admits s request uuid hadmits]
  intro hexclusive
  have hmem : oldest ∈ s.jobs.values := List.mem_of_mem_head? holdest
  have hworker := h.started oldest hmem
  have hstarted := h.running_startWorker (request.job uuid) fresh
  have hentries := h.entries_startWorker (request.job uuid) fresh
  have hstill : oldest ∈ (s.evictOldest.startWorker (request.job uuid)).running := by
    rw [hstarted]
    exact List.mem_append_left _ (mem_running.mpr ⟨hworker, hrunning⟩)
  have htail : s.evictOldest.jobs.entries = s.jobs.entries.tail := by
    simp [evictOldest, hfull, OrderedDict.popOldest]
  have hvalues : (s.evictOldest.startWorker (request.job uuid)).jobs.values =
      s.jobs.values.tail ++ [request.job uuid] := by
    rw [OrderedDict.values, hentries, htail, List.map_append, List.map_tail]
    rfl
  let again : JobRequest := ⟨oldest.provider, oldest.keys.toList, none⟩
  have hagain : again.keys = oldest.keys := Finset.toList_toFinset oldest.keys
  have hitems : again.items ≠ [] := (hkeys oldest hworker).toList_ne_nil
  obtain ⟨found, _, hconnect, _, _, hfound⟩ :=
    hexclusive.attaches oldest hstill again uuid rfl rfl hagain.subset
  obtain rfl := hfound hitems
  rcases connect_cases _ again uuid with ⟨_, hregistered⟩ | ⟨_, hstarts⟩
  · have hvalue := hregistered found (by rw [hconnect])
    rw [hvalues] at hvalue
    rcases List.mem_append.mp hvalue with hrest | hnew
    · exact h.oldest_notMem_tail holdest hrest
    · exact fresh found hworker (by rw [List.mem_singleton.mp hnew]; rfl)
  · -- starting a worker would have changed the state
    have hsame := congrArg (fun r ↦ r.2.workers.length) (hconnect.symm.trans hstarts)
    simp [ArchiveJobs.startWorker] at hsame

/-- Among jobs with items, a request keeps all within reach if and only if it evicts none
at work. -/
theorem IsRetained.isExclusive_connect_iff (h : s.IsRetained)
    (fresh : ∀ worker ∈ s.workers, worker.id ≠ uuid)
    (hkeys : ∀ job ∈ s.workers, job.keys.Nonempty) :
    (s.connect request uuid).2.IsExclusive ↔ s.EvictsFinished request := by
  constructor
  · intro hexclusive
    by_contra hevicts
    exact h.toIsTracked.not_isExclusive fresh hevicts hkeys hexclusive
  · intro hevicts
    exact (h.connect hevicts fresh).isExclusive

end Evicted

/-! ## Requests one after another -/

section Requests

/-- Each request comes with the id a new job gets. -/
def connectAll (s : ArchiveJobs) (requests : List (JobRequest × Str)) : ArchiveJobs :=
  requests.foldl (fun s r ↦ (s.connect r.1 r.2).2) s

def RegistryStep (s s' : ArchiveJobs) : Prop := ∃ action, JobStep action s s'

variable {s : ArchiveJobs} {request : JobRequest} {uuid : Str}

theorem workers_connect {worker : ArchiveJob}
    (hworker : worker ∈ (s.connect request uuid).2.workers) :
    worker ∈ s.workers ∨ worker.id = uuid := by
  rcases s.connect_cases request uuid with ⟨hsame, _⟩ | ⟨_, hstarts⟩
  · rw [hsame] at hworker
    exact .inl hworker
  · rw [hstarts] at hworker
    have hmem : worker ∈ s.workers ∨ worker = request.job uuid := by
      simpa [ArchiveJobs.startWorker] using hworker
    rcases hmem with hold | rfl
    · exact .inl hold
    · exact .inr rfl

/-- Requests with ids of their own come in one by one. -/
theorem reaches_connectAll {R : ArchiveJobs → ArchiveJobs → Prop}
    (requests : List (JobRequest × Str)) (hnodup : (requests.map Prod.snd).Nodup)
    (fresh : ∀ worker ∈ s.workers, worker.id ∉ requests.map Prod.snd)
    (hsteps : ∀ k r, requests[k]? = some r → ∀ s', JobStep (some r.1)
      (s.connectAll (requests.take k)) s' → R (s.connectAll (requests.take k)) s') :
    Relation.ReflTransGen R s (s.connectAll requests) := by
  induction requests generalizing s with
  | nil => exact .refl
  | cons r requests ih =>
      obtain ⟨hnotMem, htail⟩ := List.nodup_cons.mp hnodup
      have hfirst : ∀ worker ∈ s.workers, worker.id ≠ r.2 :=
        fun worker hworker hid ↦ fresh worker hworker (by simp [hid])
      have hstep := hsteps 0 r rfl _ (.connect r.1 hfirst)
      refine .head hstep (ih htail ?_ fun k ↦ hsteps (k + 1))
      intro worker hworker
      rcases workers_connect hworker with hold | hid
      · exact fun hmem ↦ fresh worker hold (List.mem_cons_of_mem r.2 hmem)
      · rw [hid]
        exact hnotMem

end Requests

end ArchiveJobs

/-! ## Ten requests at once -/

/-- A request for one object. -/
def objectRequest (key : String) : JobRequest := ⟨"do".toList, [("b".toList, key.toList)], none⟩

def numberedRequests : List (JobRequest × Str) :=
  ["1", "2", "3", "4", "5", "6", "7", "8", "9"].map fun n ↦ (objectRequest n, n.toList)

def nineJobs : ArchiveJobs := ArchiveJobs.start.connectAll numberedRequests

def firstJob : ArchiveJob := (objectRequest "1").job "1".toList

/-- The first of nine workers at work is out of reach, and another one is started for
its object. -/
theorem nineJobs_not_isExclusive :
    Relation.ReflTransGen ArchiveJobs.RegistryStep .start nineJobs ∧
      firstJob ∈ nineJobs.running ∧ ¬ nineJobs.IsExclusive ∧
      ∃ s, Relation.ReflTransGen ArchiveJobs.RegistryStep .start s ∧
        ∃ again, firstJob ∈ s.running ∧ again ∈ s.running ∧ firstJob ≠ again ∧
          ¬ Disjoint firstJob.keys again.keys := by
  have hfirst : firstJob ∈ nineJobs.running := by decide
  have hconnect : (nineJobs.connect (objectRequest "1") "10".toList).1 =
      .ok ((objectRequest "1").job "10".toList) := by decide
  have hruns : Relation.ReflTransGen ArchiveJobs.RegistryStep .start nineJobs := by
    apply ArchiveJobs.reaches_connectAll numberedRequests (by decide) (by decide)
    exact fun _ _ _ _ hstep ↦ ⟨_, hstep⟩
  have hfresh : ∀ worker ∈ nineJobs.workers, worker.id ≠ "10".toList := by decide
  refine ⟨hruns, hfirst, ?_, _, hruns.tail ⟨_, .connect (objectRequest "1") hfresh⟩,
    (objectRequest "1").job "10".toList, by decide, by decide, by decide, by decide⟩
  intro hexclusive
  obtain ⟨found, _, hfound, _, _, hsame⟩ := hexclusive.attaches firstJob hfirst
    (objectRequest "1") "10".toList rfl rfl (by decide)
  rw [hfound, hsame (by decide)] at hconnect
  exact absurd hconnect (by decide)

def eightJobs : ArchiveJobs := ArchiveJobs.start.connectAll (numberedRequests.take 8)

/-- Eight objects are at work; the first one's worker finishes, and when that object is
requested again its old job makes room. -/
theorem requestedAgain_isExclusive :
    eightJobs.running.length = 8 ∧ (eightJobs.finish "1".toList).jobs.entries.length = 8 ∧
      (eightJobs.finish "1".toList).Admits (objectRequest "1") ∧
      ((eightJobs.finish "1".toList).connect (objectRequest "1") "9".toList).2.IsExclusive := by
  have hfresh : ∀ job ∈ (eightJobs.finish "1".toList).workers, job.id ≠ "9".toList := by decide
  have hrunning : firstJob ∈ eightJobs.running := by decide
  have hconnects : Relation.ReflTransGen RetainingStep .start eightJobs := by
    apply ArchiveJobs.reaches_connectAll (numberedRequests.take 8) (by decide) (by decide)
    intro k r hr s' hstep
    have hroom : ∀ k < 8, (ArchiveJobs.start.connectAll
        ((numberedRequests.take 8).take k)).jobs.entries.length < 8 := by decide
    obtain ⟨hk, _⟩ := List.getElem?_eq_some_iff.mp hr
    refine ⟨some r.1, hstep, fun _ _ ↦ ?_⟩
    exact ArchiveJobs.evictsFinished_of_lt (hroom k hk)
  have hfinish : RetainingStep eightJobs (eightJobs.finish "1".toList) :=
    ⟨none, .finish hrunning, fun request h ↦ by cases h⟩
  have hagain : RetainingStep (eightJobs.finish "1".toList)
      ((eightJobs.finish "1".toList).connect (objectRequest "1") "9".toList).2 := by
    refine ⟨some (objectRequest "1"), .connect _ hfresh, fun request _ _ _ ↦ ?_⟩
    decide
  refine ⟨by decide, by decide, ⟨rfl, by decide, by decide⟩, ?_⟩
  apply retainingRun_isExclusive
  exact (hconnects.tail hfinish).tail hagain

end StorageReconciler
