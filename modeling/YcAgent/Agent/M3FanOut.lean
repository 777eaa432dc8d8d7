import YcAgent.Base.RangeMap
import YcAgent.Capture.GoCaptureEnd
import YcAgent.Config.Options

/-!
# The tasks of an M3 cycle

An M3 cycle runs its tasks in goroutines as a full capture does, but it receives each one
right after its start, `top` apart, which is received last. All application-log tasks are
one object that is given new paths before each start.
-/
namespace YcAgent.M3.FanOut

open Go Capture Transition

inductive M3Task where
  | top
  | threadDump (pid : Int)
  | appLog (pid : Int)
  | healthCheck (pid : Int)
  deriving DecidableEq

/-- The process a task is for. -/
def M3Task.pid? : M3Task → Option Int
  | .top => none
  | .threadDump pid | .appLog pid | .healthCheck pid => some pid

/-- A task is started and its result received. -/
def upload (i : M3Task) : List (Instr M3Task) := [.start i [], .recv i]

/-- The upload of the GC log touches no channel. -/
def uploadGCLogM3 : List (Instr M3Task) := [.work]

def uploadThreadDumpM3 (pid : Int) : List (Instr M3Task) := upload (.threadDump pid)

/-- With configured patterns or with discovered files, there is one task. -/
def uploadAppLogM3 (pid : Int) : List (Instr M3Task) := upload (.appLog pid)

def uploadHealthCheck (pid : Int) : List (Instr M3Task) := upload (.healthCheck pid)

/-- A round of the loop over the pids. -/
def round (o : Options) (process : Int × GoString) : List (Instr M3Task) :=
  let healthChecks : GoMap GoString HealthCheck := o .healthChecks
  uploadGCLogM3 ++ uploadThreadDumpM3 process.1 ++ uploadAppLogM3 process.1 ++
    if (healthChecks.lookup process.2).isSome then uploadHealthCheck process.1 else []

def captureAndTransmit (o : Options) (order : RangeOrder Int GoString)
    (pids : RangeMap Int GoString) : List (Instr M3Task) :=
  .start .top [] :: ((order.visit pids.entries).flatMap (round o) ++ [.recv .top])

section Rounds

variable {started : List (M3Task × List M3Task)} {received : List M3Task}
  {rest : List (Instr M3Task)}

theorem wellFormed_upload {i : M3Task} (hs : i ∉ started.map Prod.fst) (hr : i ∉ received)
    (h : Capture.WellFormed ((i, []) :: started) (i :: received) rest) :
    Capture.WellFormed started received (upload i ++ rest) :=
  ⟨hs, ⟨(i, []), List.mem_cons_self, rfl, fun _ hw => by cases hw⟩, hr, h⟩

/-- `top` is started and not received, all other tasks that were started are received, and
none of them is for a process still to come. -/
structure Between (entries : List (Int × GoString)) (started : List (M3Task × List M3Task))
    (received : List M3Task) : Prop where
  top : (.top, []) ∈ started
  topLive : .top ∉ received
  awaited : ∀ p ∈ started, p.1 = .top ∨ p.1 ∈ received
  old : ∀ i, i ∈ started.map Prod.fst ∨ i ∈ received → ∀ e ∈ entries, i.pid? ≠ some e.1

theorem Between.add {entries : List (Int × GoString)} (h : Between entries started received)
    {i : M3Task} (htop : i ≠ .top) (hi : ∀ e ∈ entries, i.pid? ≠ some e.1) :
    Between entries ((i, []) :: started) (i :: received) where
  top := List.mem_cons_of_mem _ h.top
  topLive hmem := h.topLive ((List.mem_cons.mp hmem).resolve_left (Ne.symm htop))
  awaited p hp := by
    rcases List.mem_cons.mp hp with rfl | hp
    · exact Or.inr List.mem_cons_self
    · exact (h.awaited p hp).imp_right (List.mem_cons_of_mem i)
  old j hj := by
    by_cases hji : j = i
    · exact hji ▸ hi
    · refine h.old j ?_
      rw [List.map_cons, List.mem_cons, List.mem_cons] at hj
      rcases hj with (hj | hj) | hj | hj
      · exact absurd hj hji
      · exact Or.inl hj
      · exact absurd hj hji
      · exact Or.inr hj

theorem Between.tail {e : Int × GoString} {entries : List (Int × GoString)}
    (h : Between (e :: entries) started received) : Between entries started received :=
  ⟨h.top, h.topLive, h.awaited, fun i hi e' he' => h.old i hi e' (List.mem_cons_of_mem e he')⟩

/-- The tasks of a round are new, and after it the next one can begin. -/
theorem wellFormed_round (o : Options) {e : Int × GoString} {entries : List (Int × GoString)}
    (hkey : e.1 ∉ entries.map Prod.fst) (h : Between (e :: entries) started received)
    (hrest : ∀ started' received', Between entries started' received' →
      Capture.WellFormed started' received' rest) :
    Capture.WellFormed started received (round o e ++ rest) := by
  have hnew : ∀ i : M3Task, i.pid? = some e.1 → i ∉ started.map Prod.fst ∧ i ∉ received :=
    fun i hi => ⟨fun hs => h.old i (Or.inl hs) e List.mem_cons_self hi,
      fun hr => h.old i (Or.inr hr) e List.mem_cons_self hi⟩
  have hlater : ∀ i : M3Task, i.pid? = some e.1 → ∀ e' ∈ entries, i.pid? ≠ some e'.1 := by
    intro i hi e' he' hi'
    rw [hi] at hi'
    exact hkey (Option.some.inj hi' ▸ List.mem_map_of_mem he')
  have hthreadDump := h.tail.add (i := .threadDump e.1) (by simp) (hlater _ rfl)
  have happLog := hthreadDump.add (i := .appLog e.1) (by simp) (hlater _ rfl)
  have hhealthCheck := happLog.add (i := .healthCheck e.1) (by simp) (hlater _ rfl)
  simp only [round, uploadGCLogM3, uploadThreadDumpM3, uploadAppLogM3, uploadHealthCheck,
    List.append_assoc, List.singleton_append]
  refine wellFormed_upload (hnew _ rfl).1 (hnew _ rfl).2 (wellFormed_upload ?_ ?_ ?_)
  · exact List.not_mem_cons_of_ne_of_not_mem (by simp) (hnew _ rfl).1
  · exact List.not_mem_cons_of_ne_of_not_mem (by simp) (hnew _ rfl).2
  · split
    · refine wellFormed_upload ?_ ?_ (hrest _ _ hhealthCheck)
      · exact List.not_mem_cons_of_ne_of_not_mem (by simp)
          (List.not_mem_cons_of_ne_of_not_mem (by simp) (hnew _ rfl).1)
      · exact List.not_mem_cons_of_ne_of_not_mem (by simp)
          (List.not_mem_cons_of_ne_of_not_mem (by simp) (hnew _ rfl).2)
    · exact hrest _ _ happLog

theorem wellFormed_rounds (o : Options) {entries : List (Int × GoString)}
    (hnodup : (entries.map Prod.fst).Nodup) (h : Between entries started received) :
    Capture.WellFormed started received (entries.flatMap (round o) ++ [.recv .top]) := by
  induction entries generalizing started received with
  | nil =>
    refine ⟨⟨(.top, []), h.top, rfl, fun _ hw => by cases hw⟩, h.topLive, fun p hp => ?_⟩
    rw [List.mem_cons]
    exact h.awaited p hp
  | cons e entries ih =>
    obtain ⟨hkey, hrest⟩ := List.nodup_cons.mp hnodup
    rw [List.flatMap_cons, List.append_assoc]
    exact wellFormed_round o hkey h fun _ _ => ih hrest

end Rounds

theorem wellFormed_captureAndTransmit (o : Options) (order : RangeOrder Int GoString)
    (pids : RangeMap Int GoString) :
    Capture.WellFormed [] [] (captureAndTransmit o order pids) := by
  have hnodup : ((order.visit pids.entries).map Prod.fst).Nodup :=
    ((order.perm pids.entries).map Prod.fst).nodup_iff.mpr pids.nodupKeys
  refine ⟨List.not_mem_nil, wellFormed_rounds o hnodup ⟨List.mem_cons_self, ?_, ?_, ?_⟩⟩
  · exact List.not_mem_nil
  · intro p hp
    exact Or.inl (List.mem_singleton.mp hp ▸ rfl)
  · intro i hi e _
    obtain rfl : i = .top := List.mem_singleton.mp (hi.resolve_right List.not_mem_nil)
    simp [M3Task.pid?]

theorem paired_upload (i : M3Task) : Paired (· = .top) (upload i) :=
  ⟨Or.inr ⟨[], rfl⟩, trivial⟩

theorem paired_round (o : Options) (e : Int × GoString) : Paired (· = .top) (round o e) := by
  have hgcLog : Paired (· = .top) uploadGCLogM3 := trivial
  refine ((hgcLog.append (paired_upload _)).append (paired_upload _)).append ?_
  split
  · exact paired_upload _
  · trivial

theorem paired_captureAndTransmit (o : Options) (order : RangeOrder Int GoString)
    (pids : RangeMap Int GoString) : Paired (· = .top) (captureAndTransmit o order pids) := by
  refine ⟨Or.inl rfl, Paired.append ?_ trivial⟩
  induction order.visit pids.entries with
  | nil => trivial
  | cons e entries ih =>
    rw [List.flatMap_cons]
    exact (paired_round o e).append ih

/-- In whatever order the map of pids is visited and however the tasks end, an M3 cycle does
not deadlock and has one result of each task at its end, with no goroutine left. Until then
the only goroutine beside that of `top` is that of the task whose result is waited for, so
the shared `AppLogM3` has none when it is given the paths of the next process. -/
theorem captureAndTransmit_alone (o : Options) (order : RangeOrder Int GoString)
    (pids : RangeMap Int GoString) (as : List (Action M3Task)) :
    Throughout step
      (fun s => Safe s ∧ Alone (· = .top) s ∧ Awaited (captureAndTransmit o order pids) s)
      (init (captureAndTransmit o order pids)) as :=
  throughout_located (wellFormed_captureAndTransmit o order pids)
    (fun _ hsafe hawaited hlocated =>
      ⟨hsafe, hlocated.alone (paired_captureAndTransmit o order pids), hawaited⟩) as

end YcAgent.M3.FanOut
