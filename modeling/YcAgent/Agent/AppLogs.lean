import YcAgent.Agent.M3AppLog
import YcAgent.Base.Glob
import YcAgent.Capture.AppLog

/-!
# Application logs on demand

`FullCapture` selects the application logs of a process the way an M3 cycle does, in a
copy of the same code: configured patterns, with an application name behind a dollar
sign where there are any, else the log files that the process holds open. Log files of
the garbage collector are left out of the latter; a file counts as one where its path
contains the path of a file that matches the pattern of the GC log.
-/
namespace YcAgent.Ondemand

open Go Go.FilePath Capture M3

def appLogLineCount (o : Options) : Int := o .appLogLineCount

/-- The configured patterns, where `useGlobalConfigAppLogs` gets set. -/
def globalConfigAppLogs (o : Options) (appName : GoString) : Option (List GoString) :=
  let appLogs : List GoString := o .appLogs
  if 0 < appLogs.length ∧ appLogLineCount o ≠ 0 then
    if appLogsContainDollarSign appLogs then
      let appLogsMatchingAppName := appLogs.filterMap fun configAppLog =>
        cutSuffix configAppLog ([dollar] ++ appName)
      if 0 < appLogsMatchingAppName.length then some appLogsMatchingAppName else none
    else some appLogs
  else none

/-- The files that match the pattern of the GC log. -/
def globFiles (v : Visit) : List GoString :=
  if v.gcPath ≠ [] then
    (v.filepathGlob (getGlobPatternFromGCPath v.gcPath v.pid)).getD []
  else []

/-- The open log files of the process that are no GC logs. -/
def discoveredAppLogs (v : Visit) : List GoString :=
  (v.discovered.getD []).filter fun f => !(globFiles v).any fun fileName => contains f fileName

/-- The paths that `FullCapture` gives to `AppLog`. -/
def appLogPaths (o : Options) (v : Visit) : List GoString :=
  (globalConfigAppLogs o v.appName).getD (discoveredAppLogs v)

/-- The tasks of `FullCapture` that copy application logs, the one for the old option first. -/
def appLogTasks (o : Options) (v : Visit) : List AppLog :=
  let appLog : GoString := o .appLog
  let legacy : List AppLog :=
    if 0 < appLog.length ∧ appLogLineCount o ≠ 0 then [⟨[appLog], appLogLineCount o, v.endpoint⟩]
    else []
  legacy ++ [⟨appLogPaths o v, appLogLineCount o, v.endpoint⟩]

/-- Nothing is configured for the process, so its open log files are taken. -/
def AutoDiscovers (o : Options) (v : Visit) : Prop := globalConfigAppLogs o v.appName = none

instance (o : Options) (v : Visit) : Decidable (AutoDiscovers o v) :=
  inferInstanceAs (Decidable (_ = none))

theorem appLogPaths_of_autoDiscovers {o : Options} {v : Visit} (h : AutoDiscovers o v) :
    appLogPaths o v = discoveredAppLogs v := by
  rw [appLogPaths, h, Option.getD_none]

theorem mem_discoveredAppLogs {v : Visit} {f : GoString} :
    f ∈ discoveredAppLogs v ↔
      f ∈ v.discovered.getD [] ∧ ∀ g ∈ globFiles v, ¬ g <:+: f := by
  rw [discoveredAppLogs, List.mem_filter]
  simp

/-- What the tasks for application logs do; `worlds i k` is the world of the `k`-th job of the
`i`-th task. -/
def appLogCaptures (o : Options) (quote : GoString → GoString)
    (glob : GoString → Except GoString (List GoString)) (worlds : Nat → Nat → AppLog.FileWorld)
    (v : Visit) : List AppLog.Captured :=
  (appLogTasks o v).zipIdx.flatMap fun task =>
    task.1.captures o quote glob (worlds task.2)

section LineCountZero

variable {o : Options}

/-- A line count of zero only leaves the task for what is discovered. -/
theorem appLogTasks_zero (ho : appLogLineCount o = 0) (v : Visit) :
    appLogTasks o v = [⟨discoveredAppLogs v, 0, v.endpoint⟩] := by
  have hcount : ¬ appLogLineCount o ≠ 0 := not_not.mpr ho
  have hauto : AutoDiscovers o v := if_neg fun h => hcount h.2
  have hlegacy : ¬ (0 < (o .appLog : GoString).length ∧ appLogLineCount o ≠ 0) :=
    fun h => hcount h.2
  rw [appLogTasks, if_neg hlegacy, List.nil_append, appLogPaths_of_autoDiscovers hauto, ho]

/-- With a line count of zero no application log is sent, unless the process holds a log
file open that is not compressed and ends in a line feed. -/
theorem skipped_appLogCaptures_iff (ho : appLogLineCount o = 0) (quote : GoString → GoString)
    (glob : GoString → Except GoString (List GoString)) (worlds : Nat → Nat → AppLog.FileWorld)
    (v : Visit) :
    (∀ c ∈ appLogCaptures o quote glob worlds v, c.Skipped) ↔
      ∀ k f src, (AppLog.jobs ⟨discoveredAppLogs v, 0, v.endpoint⟩ glob)[k]? = some (.file f) →
        ¬ AppLog.IsCompressed f → (worlds 0 k).opens = .ok src → (worlds 0 k).create = none →
          src.getLast? ≠ some newline := by
  have hcaptures : appLogCaptures o quote glob worlds v =
      AppLog.captures o quote ⟨discoveredAppLogs v, 0, v.endpoint⟩ glob (worlds 0) := by
    rw [appLogCaptures, appLogTasks_zero ho]
    exact List.append_nil _
  rw [hcaptures]
  constructor
  · intro h k f src hjob hext hopens hcreate
    have hc := h _ ((AppLog.mem_captures_iff ..).mpr ⟨k, _, hjob, rfl⟩)
    exact (AppLog.skipped_zero rfl).mp hc hext src hopens hcreate
  · intro h c hc
    obtain ⟨k, job, hjob, rfl⟩ := (AppLog.mem_captures_iff ..).mp hc
    cases job with
    | invalidGlob pattern err => exact AppLog.Captured.skipped_of_copy rfl
    | file f =>
      refine (AppLog.skipped_zero rfl).mpr fun hext src hopens hcreate => ?_
      exact h k f src hjob hext hopens hcreate

/-- A process that holds one log file open. -/
def oneLog (path : GoString) : Visit :=
  ⟨7, str "app", str "https://server", [], some [path], fun _ => none, fun _ => none⟩

/-- The one file is there with its content, and can be copied. -/
def fileWorld (content : GoString) : AppLog.FileWorld :=
  ⟨.ok content, [], none, none, ⟨none, none, none, none, none, 200, .ok []⟩⟩

/-- The options with a line count of zero. -/
def noAppLogs : Options := Function.update defaultOptions .appLogLineCount (0 : Int)

theorem skipped_appLogCaptures_partial_line :
    appLogLineCount noAppLogs = 0 ∧
      ∀ c ∈ appLogCaptures noAppLogs id (fun path => .ok [path])
        (fun _ _ => fileWorld (str "line1\nline2")) (oneLog (str "/var/log/app.log")),
        c.Skipped := by
  refine ⟨rfl, (skipped_appLogCaptures_iff (o := noAppLogs) rfl _ _ _ _).mpr ?_⟩
  intro k f src _ _ hopens _
  cases hopens
  decide

/-- The whole file is copied and sent. -/
theorem appLogCaptures_zero_not_skipped :
    ¬ ∀ (o : Options) (quote : GoString → GoString)
      (glob : GoString → Except GoString (List GoString))
      (worlds : Nat → Nat → AppLog.FileWorld) (v : Visit), appLogLineCount o = 0 →
        ∀ c ∈ appLogCaptures o quote glob worlds v, c.Skipped := by
  intro h
  have hskipped := h noAppLogs id (fun path => .ok [path])
    (fun _ _ => fileWorld (str "line1\nline2\n")) (oneLog (str "/var/log/app.log")) rfl
  have hcopy := hskipped _ (List.mem_singleton.mpr rfl)
    ⟨str "/var/log/app.log", str "1.appLogs.app.log", str "line1\nline2\n"⟩ rfl (by decide)
  exact absurd hcopy.1 (by decide)

end LineCountZero

section Selection

/-- Globbing an empty pattern yields the working directory. -/
def GlobsEmptyToDot (v : Visit) : Prop :=
  ∃ gs, v.filepathGlob [] = some gs ∧ gs ≠ [] ∧ ∀ g ∈ gs, g = [dot]

/-- Both sides take the same configured patterns. -/
theorem globalConfigAppLogs_eq {o : Options} (ho : appLogLineCount o ≠ 0)
    (hlen : 0 < (o .appLogs : List GoString).length) (appName : GoString) :
    globalConfigAppLogs o appName =
      if 0 < (configuredAppLogs o appName).length then some (configuredAppLogs o appName)
      else none := by
  let appLogs : List GoString := o .appLogs
  have hconfigured : configuredAppLogs o appName =
      if appLogsContainDollarSign appLogs = true then
        appLogs.filterMap fun configAppLog => cutSuffix configAppLog ([dollar] ++ appName)
      else appLogs := rfl
  refine (if_pos ⟨hlen, ho⟩).trans ?_
  rw [hconfigured]
  by_cases hdollar : appLogsContainDollarSign appLogs = true
  · exact (if_pos hdollar).trans (by rw [if_pos hdollar])
  · refine (if_neg hdollar).trans ?_
    rw [if_neg hdollar, if_pos (show 0 < appLogs.length from hlen)]

/-- Both sides discover log files where no pattern is configured. -/
theorem visitAppLogs_eq {o : Options} (ho : appLogLineCount o ≠ 0) (v : Visit) :
    v.appLogs o = (globalConfigAppLogs o v.appName).getD (M3.discoveredAppLogs v) := by
  unfold Visit.appLogs
  by_cases hlen : 0 < (o .appLogs : List GoString).length
  · rw [globalConfigAppLogs_eq ho hlen]
    simp only [if_pos hlen]
    split <;> rfl
  · have hnone : globalConfigAppLogs o v.appName = none := if_neg fun h => hlen h.1
    rw [hnone]
    simp only [if_neg hlen, List.length_nil, Nat.lt_irrefl, if_false, Option.getD_none]

/-- With the path of a GC log, both sides discover the same files. -/
theorem discoveredAppLogs_eq {v : Visit} (h : v.gcPath ≠ []) :
    M3.discoveredAppLogs v = discoveredAppLogs v := by
  rw [M3.discoveredAppLogs, discoveredAppLogs, globFiles, if_pos h]

/-- Without one, an M3 cycle drops every path with a dot in it. -/
theorem discoveredAppLogs_eq_iff {v : Visit} (h : v.gcPath = []) (hglob : GlobsEmptyToDot v) :
    discoveredAppLogs v = M3.discoveredAppLogs v ↔ ∀ f ∈ v.discovered.getD [], dot ∉ f := by
  obtain ⟨gs, hgs, hne, hdot⟩ := hglob
  obtain ⟨g, hg⟩ := List.exists_mem_of_ne_nil gs hne
  have hkeeps : ∀ f : GoString, (∃ g ∈ gs, g <:+: f) ↔ dot ∈ f := by
    intro f
    rw [← List.singleton_infix_iff]
    constructor
    · intro hex
      obtain ⟨g', hg', hf⟩ := hex
      exact hdot g' hg' ▸ hf
    · intro hf
      exact ⟨g, hg, (hdot g hg).symm ▸ hf⟩
  have hpattern : getGlobPatternFromGCPath [] v.pid = [] := rfl
  have hall : discoveredAppLogs v = v.discovered.getD [] := by
    rw [discoveredAppLogs, globFiles, if_neg (not_not.mpr h)]
    exact List.filter_eq_self.mpr fun _ _ => rfl
  rw [hall, eq_comm, M3.discoveredAppLogs, h, hpattern, hgs, Option.getD_some]
  simp only [List.filter_eq_self, Bool.not_eq_true', List.any_eq_false, contains_iff]
  refine forall_congr' fun f => forall_congr' fun _ => ?_
  rw [← hkeeps f]
  push Not
  rfl

/-- The two modes select the same application logs, unless they discover them, no path of
a GC log is known, and a path among them has a dot in it. -/
theorem appLogPaths_eq_visitAppLogs_iff {o : Options} (ho : appLogLineCount o ≠ 0) {v : Visit}
    (hglob : GlobsEmptyToDot v) :
    appLogPaths o v = v.appLogs o ↔
      ¬ (AutoDiscovers o v ∧ v.gcPath = [] ∧ ∃ f ∈ v.discovered.getD [], dot ∈ f) := by
  rw [visitAppLogs_eq ho, appLogPaths]
  cases hconfig : globalConfigAppLogs o v.appName with
  | some appLogs =>
    refine iff_of_true rfl fun h => ?_
    have hnone : globalConfigAppLogs o v.appName = none := h.1
    rw [hconfig] at hnone
    cases hnone
  | none =>
    rw [Option.getD_none, Option.getD_none]
    by_cases hgc : v.gcPath = []
    · rw [discoveredAppLogs_eq_iff hgc hglob]
      constructor
      · intro h ⟨_, _, f, hf, hdot⟩
        exact h f hf hdot
      · intro h f hf hdot
        exact h ⟨hconfig, hgc, f, hf, hdot⟩
    · exact iff_of_true (discoveredAppLogs_eq hgc).symm fun h => hgc h.2.1

/-- A process with one open log file, on a system where globbing knows no other file. -/
def dottedGlob (path : GoString) : Visit :=
  { oneLog path with filepathGlob := fun pattern => some (if pattern = [] then [[dot]] else []) }

theorem globsEmptyToDot_dottedGlob (path : GoString) : GlobsEmptyToDot (dottedGlob path) :=
  ⟨[[dot]], rfl, List.cons_ne_nil _ _, fun _ hg => List.mem_singleton.mp hg⟩

theorem appLogPaths_eq_visitAppLogs_messages :
    appLogPaths defaultOptions (dottedGlob (str "/var/log/messages")) =
      (dottedGlob (str "/var/log/messages")).appLogs defaultOptions :=
  (appLogPaths_eq_visitAppLogs_iff (by decide) (globsEmptyToDot_dottedGlob _)).mpr (by
    intro ⟨_, _, f, hf, hdot⟩
    obtain rfl := List.mem_singleton.mp hf
    exact absurd hdot (by decide))

/-- The log file has an extension, so only one of the two modes sends it. -/
theorem appLogPaths_ne_visitAppLogs :
    ¬ ∀ (o : Options) (v : Visit), appLogLineCount o ≠ 0 → GlobsEmptyToDot v →
      appLogPaths o v = v.appLogs o := by
  intro h
  have hpaths := h defaultOptions (dottedGlob (str "/var/log/app.log")) (by decide)
    (globsEmptyToDot_dottedGlob _)
  exact absurd hpaths (by decide)

end Selection

section GCLogs

-- `Match` is the matching of the glob package, `existing` tells the regular files there are.
variable (Match : GoString → GoString → Prop) (existing : GoString → Prop)

/-- The path matches the pattern of the GC log, or is that of a rotation of such a path. -/
def IsGCLog (pattern f : GoString) : Prop :=
  Match pattern f ∨ ∃ g suffix, Match pattern g ∧ f = g ++ [dot] ++ suffix

/-- No GC log, but the path of an existing one lies inside it. -/
def Stray (pattern f : GoString) : Prop :=
  ¬ IsGCLog Match pattern f ∧ ∃ u g w, f = u ++ g ++ w ∧ existing g ∧ Match pattern g

/-- A GC log that is gone, or a rotation of files that are gone, with the path of no other
existing GC log inside it. -/
def Orphan (pattern f : GoString) : Prop :=
  IsGCLog Match pattern f ∧ ∀ u g w, f = u ++ g ++ w → Match pattern g → ¬ existing g

variable {Match existing}

variable {o : Options} {v : Visit}

/-- The glob package yields the existing files that match the pattern of the GC log. -/
def GlobsExisting (Match : GoString → GoString → Prop) (existing : GoString → Prop)
    (v : Visit) : Prop :=
  let pattern := getGlobPatternFromGCPath v.gcPath v.pid
  ∀ g, g ∈ (v.filepathGlob pattern).getD [] ↔ existing g ∧ Match pattern g

theorem dropped_iff (hauto : AutoDiscovers o v) (hgc : v.gcPath ≠ [])
    (hglob : GlobsExisting Match existing v) {f : GoString} (hf : f ∈ v.discovered.getD []) :
    f ∉ appLogPaths o v ↔
      ∃ g, existing g ∧ Match (getGlobPatternFromGCPath v.gcPath v.pid) g ∧ g <:+: f := by
  rw [appLogPaths_of_autoDiscovers hauto, mem_discoveredAppLogs, globFiles, if_pos hgc]
  constructor
  · intro h
    obtain ⟨g, hg⟩ := not_forall.mp fun hall => h ⟨hf, hall⟩
    obtain ⟨hmem, hinside⟩ := Classical.not_imp.mp hg
    obtain ⟨hexists, hmatch⟩ := (hglob g).mp hmem
    exact ⟨g, hexists, hmatch, not_not.mp hinside⟩
  · intro h hkept
    obtain ⟨g, hexists, hmatch, hinside⟩ := h
    exact hkept.2 g ((hglob g).mpr ⟨hexists, hmatch⟩) hinside

/-- Auto-discovery leaves out exactly the GC logs, unless a path it meets is a stray or an
orphan. -/
theorem dropped_iff_isGCLog_iff (hauto : AutoDiscovers o v) (hgc : v.gcPath ≠ [])
    (hglob : GlobsExisting Match existing v) :
    (∀ f ∈ v.discovered.getD [], f ∉ appLogPaths o v ↔
        IsGCLog Match (getGlobPatternFromGCPath v.gcPath v.pid) f) ↔
      ∀ f ∈ v.discovered.getD [],
        ¬ Stray Match existing (getGlobPatternFromGCPath v.gcPath v.pid) f ∧
          ¬ Orphan Match existing (getGlobPatternFromGCPath v.gcPath v.pid) f := by
  refine forall_congr' fun f => forall_congr' fun hf => ?_
  rw [dropped_iff hauto hgc hglob hf]
  constructor
  · intro h
    constructor
    · intro hstray
      obtain ⟨hno, u, g, w, hsplit, hexists, hmatch⟩ := hstray
      exact hno (h.mp ⟨g, hexists, hmatch, u, w, hsplit.symm⟩)
    · intro horphan
      obtain ⟨hlog, hgone⟩ := horphan
      obtain ⟨g, hexists, hmatch, u, w, hsplit⟩ := h.mpr hlog
      exact hgone u g w hsplit.symm hmatch hexists
  · intro h
    obtain ⟨hstray, horphan⟩ := h
    constructor
    · intro hdropped
      obtain ⟨g, hexists, hmatch, u, w, hsplit⟩ := hdropped
      by_contra hno
      exact hstray ⟨hno, u, g, w, hsplit.symm, hexists, hmatch⟩
    · intro hlog
      by_contra hkept
      refine horphan ⟨hlog, fun u g w hsplit hmatch hexists => hkept ?_⟩
      exact ⟨g, hexists, hmatch, u, w, hsplit.symm⟩

end GCLogs

/-- A process that logs its garbage collections to `/tmp/gc.log` and has `discovered` open,
on a system with the files `files`. -/
def gcVisit (discovered files : List GoString) : Visit :=
  ⟨7, str "app", str "https://server", str "/tmp/gc.log", some discovered,
    fun pattern => some (files.filter (globMatch pattern)), fun _ => none⟩

theorem globsExisting_gcVisit (discovered files : List GoString) :
    GlobsExisting Matches (· ∈ files) (gcVisit discovered files) :=
  fun _ => List.mem_filter

theorem dropped_iff_isGCLog_rotation :
    AutoDiscovers defaultOptions
        (gcVisit [str "/tmp/gc.log", str "/tmp/gc.log.0"] [str "/tmp/gc.log"]) ∧
      ∀ f ∈ [str "/tmp/gc.log", str "/tmp/gc.log.0"],
        f ∉ appLogPaths defaultOptions
            (gcVisit [str "/tmp/gc.log", str "/tmp/gc.log.0"] [str "/tmp/gc.log"]) ↔
          IsGCLog Matches (getGlobPatternFromGCPath (str "/tmp/gc.log") 7) f := by
  have hbase : Matches (getGlobPatternFromGCPath (str "/tmp/gc.log") 7) (str "/tmp/gc.log") := by
    decide
  have hlog : ∀ f ∈ [str "/tmp/gc.log", str "/tmp/gc.log.0"], ∃ w,
      f = [] ++ str "/tmp/gc.log" ++ w ∧
        IsGCLog Matches (getGlobPatternFromGCPath (str "/tmp/gc.log") 7) f := by
    intro f hf
    rcases List.mem_cons.mp hf with rfl | hf
    · exact ⟨[], rfl, Or.inl hbase⟩
    · obtain rfl := List.mem_singleton.mp hf
      exact ⟨str ".0", rfl, Or.inr ⟨_, str "0", hbase, rfl⟩⟩
  refine ⟨by decide, ?_⟩
  refine (dropped_iff_isGCLog_iff (by decide) (by decide) (globsExisting_gcVisit _ _)).mpr ?_
  intro f hf
  obtain ⟨w, hsplit, hgc⟩ := hlog f hf
  exact ⟨fun hstray => hstray.1 hgc, fun horphan =>
    horphan.2 [] _ w hsplit hbase (List.mem_singleton.mpr rfl)⟩

/-- The log that was rotated away is open, and the file it was rotated from is gone. -/
theorem rotated_gcLog_kept :
    ¬ ∀ (Match : GoString → GoString → Prop) (existing : GoString → Prop) (o : Options)
      (v : Visit), AutoDiscovers o v → v.gcPath ≠ [] → GlobsExisting Match existing v →
        ∀ f ∈ v.discovered.getD [], f ∉ appLogPaths o v ↔
          IsGCLog Match (getGlobPatternFromGCPath v.gcPath v.pid) f := by
  intro h
  have hdropped := h Matches (· ∈ [str "/tmp/gc.log.0"]) defaultOptions
    (gcVisit [str "/tmp/gc.log.0"] [str "/tmp/gc.log.0"]) (by decide) (by decide)
    (globsExisting_gcVisit _ _) (str "/tmp/gc.log.0") (by decide)
  have hlog : IsGCLog Matches (getGlobPatternFromGCPath (str "/tmp/gc.log") 7)
      (str "/tmp/gc.log.0") :=
    Or.inr ⟨str "/tmp/gc.log", str "0", by decide, by decide⟩
  exact hdropped.mpr hlog (by decide)

end YcAgent.Ondemand
