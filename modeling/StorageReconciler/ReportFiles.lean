import Mathlib.Algebra.Group.Nat.Defs
import Mathlib.Logic.Function.Basic
import StorageReconciler.RestoreFromArchive
import StorageReconciler.Types

/-!
# Names of report files

A report is saved under a name that is built from some parts of the request and
from the day, and saving replaces what the name held.  A report is kept as long
as no later run shares the name.
-/

namespace StorageReconciler

open Strings

/-! ## Building a name -/

/-- `str(n).zfill(width)`, where the number has no more digits. -/
def zfill : ℕ → ℕ → Str
  | 0, _ => []
  | width + 1, n => zfill width (n / 10) ++ [Nat.digitChar (n % 10)]

structure Date where
  year : ℕ
  month : ℕ
  day : ℕ
  year_le : 1 ≤ year ∧ year ≤ 9999
  month_le : 1 ≤ month ∧ month ≤ 12
  day_le : 1 ≤ day ∧ day ≤ 31
  deriving DecidableEq

def Date.isoformat (date : Date) : Str :=
  zfill 4 date.year ++ '-' :: zfill 2 date.month ++ '-' :: zfill 2 date.day

def bucketsLabel : Option (List Str) → Str
  | none | some [] => "all-buckets".toList
  | some (b :: buckets) =>
      if (b :: buckets).length ≤ 3 then "+".toList.intercalate (b :: buckets)
      else (Nat.repr (b :: buckets).length).toList ++ "-buckets".toList

/-- `[a-zA-Z0-9_-]` -/
def isNameChar (c : Char) : Bool := c.isAlphanum || c == '_' || c == '-'

/-- `re.sub(r"[^a-zA-Z0-9_-]+", "-", part)` -/
def dashed : Str → Str
  | [] => []
  | c :: s =>
      if isNameChar c then c :: dashed s
      else if s.head?.any (!isNameChar ·) then dashed s
      else '-' :: dashed s

/-- The segment a part of the name contributes, if any. -/
def nameSegment (part : Option Str) : Option Str :=
  let cleaned := rstripChar '-' (lstripChar '-' (dashed (part.getD [])))
  if cleaned = [] then none else some cleaned

def joinDash (segments : List Str) : Str := "-".toList.intercalate segments

def buildReportFileName (today : Date) (parts : List (Option Str)) : Str :=
  joinDash (parts.filterMap nameSegment ++ [today.isoformat]) ++ ".xlsx".toList

/-! ## The runs that save a report -/

/-- The query of a scan that finds its columns by itself. -/
structure ScanQuery where
  database : Str
  buckets : Option Str
  keyPrefix : Option Str
  provider : Option Str
  deriving DecidableEq

def ScanQuery.bucketList (query : ScanQuery) : Option (List Str) :=
  match query.buckets with
  | none | some [] => none
  | some (c :: s) => some (((c :: s).splitOn ',').map strip |>.filter (· ≠ []))

inductive ReportRequest where
  | auto (query : ScanQuery)
  | manual (body : ReconciliationRequest)
  | doCleanup (query : ScanQuery)
  | copy (body : CopyBody)
  | restore (body : RestoreFromArchiveBody)

def ReportRequest.nameParts : ReportRequest → List (Option Str)
  | auto query => [some query.database, some (bucketsLabel query.bucketList)]
  | manual body => [body.database, some (bucketsLabel body.buckets)]
  | doCleanup query =>
      [some query.database, some (bucketsLabel query.bucketList), some "do-cleanup".toList]
  | copy body => [some "copy".toList, some body.sourceProvider, some body.destProvider]
  | restore body => [some "restore".toList, some body.sourceProvider, some body.destProvider]

/-- A run with the day its name is built on and the report it writes. -/
structure CompletedRun where
  request : ReportRequest
  today : Date
  workbook : Workbook

def CompletedRun.reportFile (run : CompletedRun) : Str :=
  buildReportFileName run.today run.request.nameParts

structure AuditLog where
  sourceProvider : Str
  destProvider : Str
  requested : List CopyItem
  reportFile : Str

def CompletedRun.auditLog (run : CompletedRun) : Option AuditLog :=
  match run.request with
  | .copy body => some ⟨body.sourceProvider, body.destProvider, body.items, run.reportFile⟩
  | .restore body => some ⟨body.sourceProvider, body.destProvider, body.items, run.reportFile⟩
  | _ => none

/-- The reports by their file names, and the audit logs. -/
structure ReportStore where
  reports : Str → Option Workbook
  auditLogs : List AuditLog

def ReportStore.save (store : ReportStore) (run : CompletedRun) : ReportStore where
  reports := Function.update store.reports run.reportFile (some run.workbook)
  auditLogs := store.auditLogs ++ run.auditLog.toList

/-- The runs in the order in which they save their reports. -/
def ReportStore.saveAll (store : ReportStore) (runs : List CompletedRun) : ReportStore :=
  runs.foldl ReportStore.save store

/-! ## What a name tells apart -/

theorem length_zfill (width n : ℕ) : (zfill width n).length = width := by
  induction width generalizing n with
  | zero => rfl
  | succ width ih => rw [zfill, List.length_append, ih, List.length_singleton]

theorem digitChar_inj {m n : ℕ} (hm : m < 10) (hn : n < 10)
    (h : Nat.digitChar m = Nat.digitChar n) : m = n := by
  have hval := congrArg Char.toNat h
  rw [Nat.toNat_digitChar_of_lt_ten hm, Nat.toNat_digitChar_of_lt_ten hn] at hval
  omega

theorem zfill_inj {width m n : ℕ} (hm : m < 10 ^ width) (hn : n < 10 ^ width)
    (h : zfill width m = zfill width n) : m = n := by
  induction width generalizing m n with
  | zero => omega
  | succ width ih =>
      obtain ⟨hinit, hlast⟩ := List.append_inj' h rfl
      have hdigit : m % 10 = n % 10 := by
        apply digitChar_inj (Nat.mod_lt m (by omega)) (Nat.mod_lt n (by omega))
        exact List.singleton_inj.mp hlast
      have hrest : m / 10 = n / 10 := by
        apply ih _ _ hinit
        · rw [Nat.pow_succ] at hm
          omega
        · rw [Nat.pow_succ] at hn
          omega
      omega

theorem Date.length_isoformat (date : Date) : date.isoformat.length = 10 := by
  simp only [isoformat, List.length_append, List.length_cons, length_zfill]

theorem Date.isoformat_inj {d d' : Date} (h : d.isoformat = d'.isoformat) : d = d' := by
  have hday : ∀ e : Date, ('-' :: zfill 2 e.day).length = 3 := fun e ↦ by
    rw [List.length_cons, length_zfill]
  have hmonth : ∀ e : Date, ('-' :: zfill 2 e.month).length = 3 := fun e ↦ by
    rw [List.length_cons, length_zfill]
  obtain ⟨hinit, hlast⟩ := List.append_inj' h ((hday d).trans (hday d').symm)
  obtain ⟨hfirst, hmiddle⟩ := List.append_inj' hinit ((hmonth d).trans (hmonth d').symm)
  have hyear := d.year_le
  have hyear' := d'.year_le
  have hmonth := d.month_le
  have hmonth' := d'.month_le
  have hday := d.day_le
  have hday' := d'.day_le
  have heqYear := zfill_inj (by omega) (by omega) hfirst
  have heqMonth := zfill_inj (by omega) (by omega) (List.cons_inj_right '-' |>.mp hmiddle)
  have heqDay := zfill_inj (by omega) (by omega) (List.cons_inj_right '-' |>.mp hlast)
  cases d
  cases d'
  simp only [mk.injEq]
  exact ⟨heqYear, heqMonth, heqDay⟩

theorem nameSegment_ne_nil {part : Option Str} {segment : Str}
    (h : nameSegment part = some segment) : segment ≠ [] := by
  rw [nameSegment] at h
  split_ifs at h with hempty
  rintro rfl
  exact hempty (Option.some.inj h)

@[simp] theorem joinDash_singleton (segment : Str) : joinDash [segment] = segment :=
  List.intercalate_singleton

theorem joinDash_ne_nil {segments : List Str} (hne : segments ≠ [])
    (hsegments : ∀ s ∈ segments, s ≠ []) : joinDash segments ≠ [] := by
  cases segments with
  | nil => exact absurd rfl hne
  | cons s rest =>
      have hs := hsegments s List.mem_cons_self
      cases rest with
      | nil => rwa [joinDash_singleton]
      | cons t rest =>
          rw [joinDash, List.intercalate_cons_cons]
          exact fun h ↦ hs (List.append_eq_nil_iff.mp (List.append_eq_nil_iff.mp h).1).1

/-- What stands before the day in a name. -/
def nameStem (label : Str) : Str := if label = [] then [] else label ++ "-".toList

theorem nameStem_inj {l l' : Str} (h : nameStem l = nameStem l') : l = l' := by
  simp only [nameStem] at h
  split_ifs at h with hl hl' hl'
  · rw [hl, hl']
  · exact absurd h.symm (List.append_ne_nil_of_right_ne_nil l' (by decide))
  · exact absurd h (List.append_ne_nil_of_right_ne_nil l (by decide))
  · exact List.append_cancel_right h

theorem joinDash_concat {segments : List Str} (hsegments : ∀ s ∈ segments, s ≠ [])
    (last : Str) : joinDash (segments ++ [last]) = nameStem (joinDash segments) ++ last := by
  induction segments with
  | nil => simp [nameStem, joinDash]
  | cons s rest ih =>
      have hlabel := joinDash_ne_nil (List.cons_ne_nil s rest) hsegments
      rw [nameStem, if_neg hlabel]
      cases rest with
      | nil => simp [joinDash, List.intercalate_cons_cons]
      | cons t rest =>
          have hsegments' := fun u hu ↦ hsegments u (List.mem_cons_of_mem s hu)
          have hrest := ih hsegments'
          rw [nameStem, if_neg (joinDash_ne_nil (List.cons_ne_nil t rest) hsegments')] at hrest
          simp only [joinDash, List.cons_append, List.intercalate_cons_cons] at hrest ⊢
          rw [hrest]
          simp only [List.append_assoc]

/-! ## Runs that share a name -/

/-- The parts of the name, cleaned and joined. -/
def CompletedRun.label (run : CompletedRun) : Str :=
  joinDash (run.request.nameParts.filterMap nameSegment)

/-- On the same day, and with parts that the cleaning does not tell apart. -/
def CompletedRun.SharesName (run later : CompletedRun) : Prop :=
  run.today = later.today ∧ run.label = later.label

instance (run later : CompletedRun) : Decidable (run.SharesName later) :=
  inferInstanceAs (Decidable (_ ∧ _))

theorem CompletedRun.reportFile_eq (run : CompletedRun) :
    run.reportFile = nameStem run.label ++ run.today.isoformat ++ ".xlsx".toList := by
  have hsegments : ∀ s ∈ run.request.nameParts.filterMap nameSegment, s ≠ [] := by
    intro s hs
    obtain ⟨part, _, hpart⟩ := List.mem_filterMap.mp hs
    exact nameSegment_ne_nil hpart
  rw [reportFile, buildReportFileName, joinDash_concat hsegments]
  rfl

theorem CompletedRun.reportFile_eq_iff {run later : CompletedRun} :
    run.reportFile = later.reportFile ↔ run.SharesName later := by
  rw [run.reportFile_eq, later.reportFile_eq]
  constructor
  · intro h
    have hlen : run.today.isoformat.length = later.today.isoformat.length := by
      rw [Date.length_isoformat, Date.length_isoformat]
    obtain ⟨hstem, htoday⟩ := List.append_inj' (List.append_cancel_right h) hlen
    exact ⟨Date.isoformat_inj htoday, nameStem_inj hstem⟩
  · rintro ⟨htoday, hlabel⟩
    rw [htoday, hlabel]

/-! ## What a store keeps -/

theorem ReportStore.saveAll_append (store : ReportStore) (runs runs' : List CompletedRun) :
    store.saveAll (runs ++ runs') = (store.saveAll runs).saveAll runs' :=
  List.foldl_append

theorem ReportStore.saveAll_cons (store : ReportStore) (run : CompletedRun)
    (runs : List CompletedRun) :
    store.saveAll (run :: runs) = (store.save run).saveAll runs :=
  rfl

theorem ReportStore.reports_saveAll {store : ReportStore} {runs : List CompletedRun} {name : Str}
    (hother : ∀ run ∈ runs, run.reportFile ≠ name) :
    (store.saveAll runs).reports name = store.reports name := by
  induction runs generalizing store with
  | nil => rfl
  | cons run runs ih =>
      have hrun : name ≠ run.reportFile := (hother run List.mem_cons_self).symm
      rw [saveAll_cons, ih fun r hr ↦ hother r (List.mem_cons_of_mem run hr)]
      exact Function.update_of_ne hrun _ _

theorem ReportStore.auditLogs_saveAll (store : ReportStore) (runs : List CompletedRun) :
    (store.saveAll runs).auditLogs =
      store.auditLogs ++ runs.filterMap CompletedRun.auditLog := by
  induction runs generalizing store with
  | nil => simp [saveAll]
  | cons run runs ih =>
      rw [saveAll_cons, ih, save]
      cases hlog : run.auditLog <;> simp [hlog]

theorem ReportStore.reports_saveAll_last (store : ReportStore) (earlier : List CompletedRun)
    {run last : CompletedRun} {later : List CompletedRun} (hshares : run.SharesName last)
    (hlater : ∀ r ∈ later, ¬run.SharesName r) :
    (store.saveAll (earlier ++ last :: later)).reports run.reportFile = some last.workbook := by
  have hother : ∀ r ∈ later, r.reportFile ≠ run.reportFile := by
    intro r hr hname
    exact hlater r hr (CompletedRun.reportFile_eq_iff.mp hname.symm)
  rw [store.saveAll_append, saveAll_cons, reports_saveAll hother,
    CompletedRun.reportFile_eq_iff.mpr hshares]
  exact Function.update_self _ _ _

theorem CompletedRun.reportFile_auditLog {run : CompletedRun} {log : AuditLog}
    (hlog : run.auditLog = some log) : log.reportFile = run.reportFile := by
  rw [auditLog] at hlog
  split at hlog
  · exact congrArg AuditLog.reportFile (Option.some.inj hlog).symm
  · exact congrArg AuditLog.reportFile (Option.some.inj hlog).symm
  · cases hlog

/-- A report is kept under the name that the run returned and logged, as long as no later
run shares the name. -/
theorem reportFile_keepsReport (store : ReportStore) (earlier later : List CompletedRun)
    (run : CompletedRun) (hlater : ∀ r ∈ later, ¬run.SharesName r) :
    (store.saveAll (earlier ++ run :: later)).reports run.reportFile = some run.workbook ∧
      ∀ log, run.auditLog = some log →
        log ∈ (store.saveAll (earlier ++ run :: later)).auditLogs ∧
          (store.saveAll (earlier ++ run :: later)).reports log.reportFile =
            some run.workbook := by
  have hkept := store.reports_saveAll_last earlier ⟨rfl, rfl⟩ hlater
  refine ⟨hkept, ?_⟩
  intro log hlog
  refine ⟨?_, ?_⟩
  · rw [store.auditLogs_saveAll]
    apply List.mem_append_right
    exact List.mem_filterMap.mpr ⟨run, by simp, hlog⟩
  · rw [CompletedRun.reportFile_auditLog hlog]
    exact hkept

/-! ## One name for two requests -/

def someDay : Date := ⟨2024, 5, 31, by decide, by decide, by decide⟩

def copyRun (key : Str) : CompletedRun where
  request := .copy {
    items := [⟨"media".toList, key, .blank, none, none, none, .blank⟩]
    sourceProvider := "do-sgp1".toList
    destProvider := "wasabi".toList
    destBucket := none
    overwrite := false
    makePublic := true }
  today := someDay
  workbook := [("Copied".toList, [[.text "media".toList, .text key]])]

def scanRun (database provider : Str) : CompletedRun where
  request := .auto {
    database := database
    buckets := none
    keyPrefix := none
    provider := some provider }
  today := someDay
  workbook := [("Summary".toList, [[.text database, .text provider]])]

def noReports : ReportStore := ⟨fun _ ↦ none, []⟩

/-- A scan, and a copy on the next day. -/
def laterRuns : List CompletedRun :=
  [scanRun "billing".toList "aws".toList,
    { copyRun "b.png".toList with today := ⟨2024, 6, 1, by decide, by decide, by decide⟩ }]

/-- The audit log of a copy still names its report, after a scan of another database and a
copy of another day. -/
theorem reportFile_keepsReport_otherDatabase :
    ∃ log, (copyRun "a.png".toList).auditLog = some log ∧
      log ∈ (noReports.saveAll ([scanRun "school".toList "aws".toList] ++
        copyRun "a.png".toList :: laterRuns)).auditLogs ∧
      (noReports.saveAll ([scanRun "school".toList "aws".toList] ++
        copyRun "a.png".toList :: laterRuns)).reports log.reportFile =
          some (copyRun "a.png".toList).workbook := by
  have hother : ∀ r ∈ laterRuns, ¬(copyRun "a.png".toList).SharesName r := by decide
  obtain ⟨_, hlogs⟩ := reportFile_keepsReport noReports [scanRun "school".toList "aws".toList]
    laterRuns (copyRun "a.png".toList) hother
  obtain ⟨hlogged, hkept⟩ := hlogs _ rfl
  exact ⟨_, rfl, hlogged, hkept⟩

/-- Copies of other items, and a scan of another provider, replace the report. -/
theorem reportFile_replaced :
    ((copyRun "b.png".toList).request ≠ (copyRun "a.png".toList).request ∧
      (noReports.saveAll [copyRun "a.png".toList, copyRun "b.png".toList]).reports
        (copyRun "a.png".toList).reportFile ≠ some (copyRun "a.png".toList).workbook) ∧
    (scanRun "school".toList "do-sgp1".toList).request ≠
        (scanRun "school".toList "aws".toList).request ∧
      (noReports.saveAll [scanRun "school".toList "aws".toList,
          scanRun "school".toList "do-sgp1".toList]).reports
        (scanRun "school".toList "aws".toList).reportFile ≠
          some (scanRun "school".toList "aws".toList).workbook := by
  refine ⟨⟨?_, ?_⟩, ?_, ?_⟩
  · intro h
    have hbody := ReportRequest.copy.inj h
    have hitems := congrArg (fun body ↦ body.items.map CopyItem.key) hbody
    exact absurd hitems (by decide)
  · have hshares : (copyRun "a.png".toList).SharesName (copyRun "b.png".toList) := ⟨rfl, rfl⟩
    have hlast := noReports.reports_saveAll_last [copyRun "a.png".toList] hshares
      fun _ h ↦ absurd h List.not_mem_nil
    exact fun h ↦ absurd (hlast.symm.trans h) (by decide)
  · intro h
    have hquery := ReportRequest.auto.inj h
    exact absurd hquery (by decide)
  · have hshares : (scanRun "school".toList "aws".toList).SharesName
        (scanRun "school".toList "do-sgp1".toList) := ⟨rfl, rfl⟩
    have hlast := noReports.reports_saveAll_last [scanRun "school".toList "aws".toList] hshares
      fun _ h ↦ absurd h List.not_mem_nil
    exact fun h ↦ absurd (hlast.symm.trans h) (by decide)

end StorageReconciler
