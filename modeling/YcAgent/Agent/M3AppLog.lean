import YcAgent.Capture.AppLogM3Call
import YcAgent.Capture.GC

/-!
# Application logs in M3 mode

Every M3 cycle visits the monitored processes in the order in which the map of pids
happens to be iterated, and hands the log patterns of each to one shared `AppLogM3`.
Its positions are kept per path, not per process: of two processes with the same log
file, each visit of one moves the position of the other.
-/
namespace YcAgent.M3

open Go Capture Capture.AppLogM3

/-- One round of the loop of `captureAndTransmit`, with what the rounds before and the
file system answer: the path of the GC log, the log files the process holds open, and
the two glob functions. -/
structure Visit where
  pid : Int
  appName : GoString
  endpoint : GoString
  gcPath : GoString
  discovered : Option (List GoString)
  filepathGlob : GoString → Option (List GoString)
  glob : GoString → Option (List GoString)

def appLogsContainDollarSign (appLogs : List GoString) : Bool :=
  appLogs.any fun configAppLog => contains configAppLog [dollar]

/-- The configured patterns that apply to an application. -/
def configuredAppLogs (o : Options) (appName : GoString) : List GoString :=
  let all : List GoString := o .appLogs
  if appLogsContainDollarSign all then
    all.filterMap fun configAppLog => cutSuffix configAppLog ([dollar] ++ appName)
  else all

/-- The open log files of the process that are no GC logs. -/
def discoveredAppLogs (v : Visit) : List GoString :=
  let discoveredLogFiles := v.discovered.getD []
  let pattern := getGlobPatternFromGCPath v.gcPath v.pid
  let globFiles := (v.filepathGlob pattern).getD []
  discoveredLogFiles.filter fun f => !globFiles.any fun fileName => contains f fileName

/-- The patterns of a visit: the configured ones, or the discovered files if there are none. -/
def Visit.appLogs (o : Options) (v : Visit) : List GoString :=
  let appLogs :=
    if 0 < (o .appLogs : List GoString).length then configuredAppLogs o v.appName else []
  if 0 < appLogs.length then appLogs else discoveredAppLogs v

/-- `k`-th job of the visit runs in the `k`-th world. -/
def uploadAppLogM3 (o : Options) (appLogM3 : AppLogM3) (v : Visit) (worlds : Nat → CallWorld) :
    AppLogM3 × List FileResult :=
  (appLogM3.setPaths [(v.pid, v.appLogs o)]).run o v.endpoint v.glob worlds

/-- The application-log part of `captureAndTransmit`, over visits with their numbers. -/
def captureAndTransmit (o : Options) (worlds : Nat → Nat → CallWorld)
    (s : AppLogM3 × List FileResult) (visits : List (Visit × Nat)) : AppLogM3 × List FileResult :=
  visits.foldl (fun s v =>
    let (appLogM3, results) := uploadAppLogM3 o s.1 v.1 (worlds v.2)
    (appLogM3, s.2 ++ results)) s

/-- The visits of a run of cycles, each with its number. -/
def timeline (cycles : List (List Visit)) : List (Visit × Nat) := cycles.flatten.zipIdx

/-- What a run of M3 cycles does with application logs, from the start of the agent. -/
def results (o : Options) (worlds : Nat → Nat → CallWorld) (visits : List (Visit × Nat)) :
    List FileResult :=
  (captureAndTransmit o worlds (newAppLogM3, []) visits).2

/-- The jobs of a visit, each with its number. -/
def Visit.jobs (o : Options) (v : Visit) : List (Job × Nat) :=
  (AppLogM3.jobs v.glob ⟨[(v.pid, v.appLogs o)], ∅⟩).zipIdx

def calls (o : Options) (worlds : Nat → Nat → CallWorld) (v : Visit × Nat) : List CallIn :=
  callsOf v.1.endpoint (worlds v.2) (v.1.jobs o)

variable (o : Options) (worlds : Nat → Nat → CallWorld)

theorem uploadAppLogM3_eq_trace (appLogM3 : AppLogM3) (v : Visit × Nat) :
    (uploadAppLogM3 o appLogM3 v.1 (worlds v.2)).1.readStats =
        Keyed.final (captureSingleAppLog o) appLogM3.readStats (calls o worlds v) ∧
      (uploadAppLogM3 o appLogM3 v.1 (worlds v.2)).2.filterMap FileResult.call =
        Keyed.trace (captureSingleAppLog o) appLogM3.readStats (calls o worlds v) :=
  run_eq_trace o v.1.endpoint v.1.glob (worlds v.2) (appLogM3.setPaths [(v.1.pid, v.1.appLogs o)])

theorem captureAndTransmit_eq_trace (visits : List (Visit × Nat))
    (s : AppLogM3 × List FileResult) :
    (captureAndTransmit o worlds s visits).2.filterMap FileResult.call =
      s.2.filterMap FileResult.call ++ Keyed.trace (captureSingleAppLog o) s.1.readStats
        (visits.flatMap (calls o worlds)) := by
  induction visits generalizing s with
  | nil => exact (List.append_nil _).symm
  | cons v visits ih =>
    obtain ⟨hstats, hresults⟩ := uploadAppLogM3_eq_trace o worlds s.1 v
    rw [List.flatMap_cons, Keyed.trace_append, ← hstats, ← hresults]
    rw [← List.append_assoc, ← List.filterMap_append]
    exact ih _

/-- The calls of a run with their outcomes. -/
theorem results_eq_trace (visits : List (Visit × Nat)) :
    (results o worlds visits).filterMap FileResult.call =
      Keyed.trace (captureSingleAppLog o) ∅ (visits.flatMap (calls o worlds)) :=
  captureAndTransmit_eq_trace o worlds visits (newAppLogM3, [])

end YcAgent.M3
