import YcAgent.Agent.AppLogs
import YcAgent.Capture.Discovery

/-!
# The logs of a process, once each

Where nothing is configured, `FullCapture` hands the logs that a process holds open to
`AppLog`, which takes each path for a pattern and captures every match of it. A log is captured
as often as it is listed, and once more for every other path that matches it as a pattern.
-/
namespace YcAgent.Ondemand

open Go Capture Capture.OpenedFiles Capture.Discovery M3

/-- The visit of a process with a table of descriptors. -/
def discovers (read : GoString → Option GoString) (t : Table) (v : Visit) : Visit :=
  { v with discovered := (discoverOpenedLogFilesByProcess read v.pid (some t)).toOption }

/-- The jobs of the task for the discovered logs. -/
def discoveredJobs (glob : GoString → Except GoString (List GoString)) (o : Options) (v : Visit) :
    List AppLog.Job :=
  AppLog.jobs ⟨discoveredAppLogs v, appLogLineCount o, v.endpoint⟩ glob

/-- No path is discovered twice, and each log that is no GC log is captured once. -/
structure CapturedOnce (glob : GoString → Except GoString (List GoString)) (o : Options)
    (v : Visit) : Prop where
  listed : (v.discovered.getD []).Nodup
  captured : ∀ f ∈ discoveredAppLogs v, (discoveredJobs glob o v).count (.file f) = 1

def matched (glob : GoString → Except GoString (List GoString)) (f path : GoString) : Bool :=
  match glob path with
  | .error _ => false
  | .ok ms => ms.contains f

/-- Each path is matched by exactly one of them as a pattern. -/
def MatchedByOne (glob : GoString → Except GoString (List GoString)) (paths : List GoString) :
    Prop :=
  ∀ f ∈ paths, ∃ p ∈ paths, matched glob f p = true ∧
    ∀ q ∈ paths, matched glob f q = true → q = p

/-- A pattern has no match twice. -/
def GlobsOnce (glob : GoString → Except GoString (List GoString)) : Prop :=
  ∀ path ms, glob path = .ok ms → ms.Nodup

variable {glob : GoString → Except GoString (List GoString)}

/-- Where a path matches itself alone as a pattern, each is matched by one. -/
theorem matchedByOne_of_plain {paths : List GoString} (hplain : ∀ f ∈ paths, glob f = .ok [f]) :
    MatchedByOne glob paths := by
  intro f hf
  have hmatched : ∀ q ∈ paths, matched glob f q = true ↔ q = f := by
    intro q hq
    rw [matched, hplain q hq]
    simp [eq_comm]
  exact ⟨f, hf, (hmatched f hf).mpr rfl, fun q hq h => (hmatched q hq).mp h⟩

theorem count_job (hglob : GlobsOnce glob) (path : GoString) (lineLimit : Int)
    (endpoint f : GoString) :
    (AppLog.jobs ⟨[path], lineLimit, endpoint⟩ glob).count (.file f) =
      if matched glob f path then 1 else 0 := by
  unfold matched
  cases hms : glob path with
  | error e => simp [AppLog.jobs, hms]
  | ok ms =>
    have hinj : Function.Injective AppLog.Job.file := fun _ _ h => AppLog.Job.file.inj h
    have hjobs : AppLog.jobs ⟨[path], lineLimit, endpoint⟩ glob = ms.map .file := by
      simp [AppLog.jobs, hms]
    rw [hjobs, List.count_map_of_injective _ _ hinj, (hglob path ms hms).count]
    simp only [List.contains_iff_mem]

theorem count_jobs (hglob : GlobsOnce glob) (paths : List GoString) (lineLimit : Int)
    (endpoint f : GoString) :
    (AppLog.jobs ⟨paths, lineLimit, endpoint⟩ glob).count (.file f) =
      paths.countP (matched glob f) := by
  induction paths with
  | nil => rfl
  | cons path paths ih =>
    have hjobs : AppLog.jobs ⟨path :: paths, lineLimit, endpoint⟩ glob =
        AppLog.jobs ⟨[path], lineLimit, endpoint⟩ glob ++
          AppLog.jobs ⟨paths, lineLimit, endpoint⟩ glob := by
      simp [AppLog.jobs]
    rw [hjobs, List.count_append, count_job hglob, ih, List.countP_cons, Nat.add_comm]

theorem countP_eq_one_iff {α : Type*} {p : α → Bool} {l : List α} (hl : l.Nodup) :
    l.countP p = 1 ↔ ∃ a ∈ l, p a = true ∧ ∀ b ∈ l, p b = true → b = a := by
  rw [List.countP_eq_length_filter, List.length_eq_one_iff]
  constructor
  · intro h
    obtain ⟨a, ha⟩ := h
    have hmem : ∀ b, b ∈ l ∧ p b = true ↔ b = a := fun b => by
      rw [← List.mem_filter, ha, List.mem_singleton]
    obtain ⟨hal, hpa⟩ := (hmem a).mpr rfl
    exact ⟨a, hal, hpa, fun b hb hpb => (hmem b).mp ⟨hb, hpb⟩⟩
  · intro h
    obtain ⟨a, ha, hpa, hone⟩ := h
    refine ⟨a, List.perm_singleton.mp ?_⟩
    refine (List.perm_ext_iff_of_nodup (hl.filter p) (List.nodup_singleton a)).mpr fun b => ?_
    rw [List.mem_filter, List.mem_singleton]
    constructor
    · intro hb
      exact hone b hb.1 hb.2
    · rintro rfl
      exact ⟨ha, hpa⟩

/-- Every discovered log is captured once if and only if none is open under two descriptors and
each is matched by one of the paths as a pattern. -/
theorem discoveredOnce_iff (hglob : GlobsOnce glob) (o : Options)
    (read : GoString → Option GoString) (t : Table) (v : Visit) :
    CapturedOnce glob o (discovers read t v) ↔
      Distinct read t ∧ MatchedByOne glob (discoveredAppLogs (discovers read t v)) := by
  have hlisted : ((discovers read t v).discovered.getD []).Nodup ↔ Distinct read t :=
    nodup_filter_iff read t
  have hcaptured : ((discovers read t v).discovered.getD []).Nodup →
      ((∀ f ∈ discoveredAppLogs (discovers read t v),
        (discoveredJobs glob o (discovers read t v)).count (.file f) = 1) ↔
          MatchedByOne glob (discoveredAppLogs (discovers read t v))) := by
    intro hnodup
    have hkept : (discoveredAppLogs (discovers read t v)).Nodup := hnodup.filter _
    refine forall₂_congr fun f _ => ?_
    rw [discoveredJobs, count_jobs hglob, countP_eq_one_iff hkept]
  constructor
  · intro h
    exact ⟨hlisted.mp h.listed, (hcaptured h.listed).mp h.captured⟩
  · intro h
    obtain ⟨hdistinct, hmatched⟩ := h
    have hnodup := hlisted.mpr hdistinct
    exact ⟨hnodup, (hcaptured hnodup).mpr hmatched⟩

/-- A process with these descriptors, and nothing configured for it. -/
def quietVisit : Visit :=
  ⟨7, str "app", str "https://server", [], none, fun _ => none, fun _ => none⟩

theorem globsOnce_self : GlobsOnce fun path => .ok [path] := by
  intro path ms h
  cases h
  exact List.nodup_singleton path

theorem discoveredOnce_oneDescriptor :
    CapturedOnce (fun path => .ok [path]) defaultOptions
      (discovers (fun _ => some (str "line\n")) socketAndLog quietVisit) :=
  (discoveredOnce_iff globsOnce_self _ _ _ _).mpr
    ⟨by unfold Distinct; decide, matchedByOne_of_plain fun _ _ => rfl⟩

/-- Standard output and standard error in one file. -/
def twoDescriptors : Table :=
  ⟨[(1, str "/var/log/app.log"), (2, str "/var/log/app.log")], by decide⟩

theorem discoveredOnce_not_twoDescriptors :
    ¬ ∀ (glob : GoString → Except GoString (List GoString)) (o : Options)
      (read : GoString → Option GoString) (t : Table) (v : Visit), GlobsOnce glob →
        CapturedOnce glob o (discovers read t v) := by
  intro h
  have honce := h (fun path => .ok [path]) defaultOptions (fun _ => some (str "line\n"))
    twoDescriptors quietVisit globsOnce_self
  exact absurd honce.listed (by decide)

end YcAgent.Ondemand
