import YcAgent.Agent.AppLogs
import YcAgent.Capture.GoCaptureEnd
import YcAgent.Capture.GoCaptureOrder

/-!
# The tasks of a capture

`FullCapture` starts its tasks in one order and receives their results in another. What it
does between the receives touches no channel: it kills `top` and `vmstat`, and it runs the
heap dump itself.
-/
namespace YcAgent.Ondemand

open Go Capture Transition

inductive CaptureTask where
  | gc | netStat | top | vmstat | ps | dmesg | disk | ping | kernel | threadDump | appLog
  | appLogs | hdsubLog | extendedData
  deriving DecidableEq

/-- Instructions under a condition. -/
def only (condition : Bool) (instrs : List (Instr CaptureTask)) : List (Instr CaptureTask) :=
  if condition then instrs else []

/-- The starts and receives of `FullCapture`, with what decides which tasks there are. -/
def fanOut (pidPassed appLog extendedData : Bool) : List (Instr CaptureTask) :=
  List.flatten [
    [.start .gc []],
    only pidPassed
      [.start .netStat [], .start .top [], .start .vmstat [], .start .ps [],
        .start .dmesg [.vmstat], .start .disk []],
    [.start .ping [], .start .kernel [], .start .threadDump []],
    only appLog [.start .appLog []],
    [.start .appLogs [], .start .hdsubLog []],
    only extendedData [.start .extendedData []],
    [.work],
    only pidPassed
      [.recv .top, .recv .disk, .recv .netStat, .recv .ps, .recv .vmstat, .recv .dmesg],
    [.recv .gc, .recv .ping],
    only appLog [.recv .appLog],
    [.recv .appLogs, .recv .hdsubLog, .recv .kernel, .recv .threadDump, .work],
    only extendedData [.recv .extendedData]]

def fullCapture (o : Options) (pid : Int) : List (Instr CaptureTask) :=
  let appLog : GoString := o .appLog
  let edScript : GoString := o .edScript
  let edDataFolder : GoString := o .edDataFolder
  fanOut (0 < pid) (0 < appLog.length && appLogLineCount o ≠ 0)
    (edScript ≠ [] && edDataFolder ≠ [])

/-- Every task that is started is received, `vmstat` before `dmesg` that waits for it. -/
theorem wellFormed_fanOut (pidPassed appLog extendedData : Bool) :
    WellFormed [] [] (fanOut pidPassed appLog extendedData) := by
  cases pidPassed <;> cases appLog <;> cases extendedData <;> decide

/-- Whatever tasks a capture has and however they end, it does not deadlock, it receives one
result of each before the channel is closed, it has those of all tasks at its end, and no wait
group is counted below zero. -/
theorem fullCapture_safe (o : Options) (pid : Int) (as : List (Action CaptureTask)) :
    Throughout step (fun s => Safe s ∧ Awaited (fullCapture o pid) s)
      (init (fullCapture o pid)) as :=
  throughout_located (wellFormed_fanOut ..) (fun _ hsafe hawaited _ => ⟨hsafe, hawaited⟩) as

/-- `vmstat` runs and has its command when `dmesg` gets to its wait. -/
def vmstatFirst : List (Action CaptureTask) :=
  List.replicate 6 .collector ++
    [.task .vmstat .setEndpoint, .task .vmstat .initWaitGroup, .task .vmstat .beginRun,
      .task .vmstat .setCmd, .task .dmesg .waitWaitGroup]

theorem throughout_ordered_vmstatFirst :
    Throughout step Ordered (init (fullCapture defaultOptions 1)) vmstatFirst :=
  throughout_ordered _ _ (by decide)

/-- `dmesg` gets to its wait before the goroutine of `vmstat` has done anything. -/
def dmesgFirst : List (Action CaptureTask) :=
  List.replicate 6 .collector ++
    [.task .dmesg .waitWaitGroup, .task .dmesg .setEndpoint, .task .dmesg .initWaitGroup,
      .task .dmesg .beginRun]

theorem dmesg_runs_before_vmstat :
    ¬ ∀ (o : Options) (pid : Int) (as : List (Action CaptureTask)),
      Throughout step Ordered (init (fullCapture o pid)) as := by
  intro h
  have hrun : (run step (init (fullCapture defaultOptions 1)) dmesgFirst).map (fun s =>
      ((s.task .dmesg).phase.rank, (s.task .dmesg).earlier, (s.task .vmstat).phase.rank)) =
      some (4, [.vmstat], 1) := by decide
  obtain ⟨s, hs, hlast⟩ := Option.map_eq_some_iff.mp hrun
  simp only [Prod.mk.injEq] at hlast
  obtain ⟨hdmesg, hearlier, hvmstat⟩ := hlast
  have hordered := throughout_last (h defaultOptions 1 dmesgFirst) hs
  have hfinished := hordered .dmesg (by omega) .vmstat (by rw [hearlier]; exact List.mem_cons_self)
  omega

/-- What is left of a capture where it runs the heap dump itself. -/
def heapDumpOn (extendedData : Bool) : List (Instr CaptureTask) :=
  .work :: only extendedData [.recv .extendedData]

/-- What a capture does before its heap dump. -/
def beforeHeapDump (pidPassed appLog extendedData : Bool) : List (Instr CaptureTask) :=
  let program := fanOut pidPassed appLog extendedData
  program.take (program.length - (heapDumpOn extendedData).length)

theorem beforeHeapDump_append (pidPassed appLog extendedData : Bool) :
    beforeHeapDump pidPassed appLog extendedData ++ heapDumpOn extendedData =
      fanOut pidPassed appLog extendedData := by
  cases pidPassed <;> cases appLog <;> cases extendedData <;> decide

theorem pending_beforeHeapDump (pidPassed appLog extendedData : Bool) :
    ∀ i ∈ starts (beforeHeapDump pidPassed appLog extendedData),
      i ∉ receives (beforeHeapDump pidPassed appLog extendedData) → i = .extendedData := by
  cases pidPassed <;> cases appLog <;> cases extendedData <;> decide

def edGiven (o : Options) : Bool :=
  let edScript : GoString := o .edScript
  let edDataFolder : GoString := o .edDataFolder
  edScript ≠ [] && edDataFolder ≠ []

/-- While the heap dump is taken, the only other task that can be running is the script for
extended data. -/
def HeapDumpAlone (o : Options) (s : State CaptureTask) : Prop :=
  s.program = heapDumpOn (edGiven o) → ∀ i, Live (s.task i) → i = .extendedData

theorem heapDumpAlone_of_located {o : Options} {pid : Int} {s : State CaptureTask}
    (h : Located (fullCapture o pid) s) : HeapDumpAlone o s := by
  intro hprogram i hlive
  obtain ⟨before, hsplit, hbehind⟩ := h
  rw [hprogram] at hsplit
  have hfull : fullCapture o pid = _ := (beforeHeapDump_append _ _ (edGiven o)).symm
  obtain rfl : _ = before := List.append_cancel_right (hfull.symm.trans hsplit)
  obtain ⟨hstart, hnot⟩ := (hbehind.live_iff i).mp hlive
  exact pending_beforeHeapDump _ _ _ i hstart hnot

/-- The heap dump is taken when all other tasks of a capture have ended, but for the script for
extended data, and custom commands and `yc-fin` come when that has ended too. -/
theorem fullCapture_heapDump_alone (o : Options) (pid : Int) (as : List (Action CaptureTask)) :
    Throughout step (fun s => HeapDumpAlone o s ∧ Awaited (fullCapture o pid) s)
      (init (fullCapture o pid)) as :=
  throughout_located (wellFormed_fanOut ..)
    (fun _ _ hawaited hlocated => ⟨heapDumpAlone_of_located hlocated, hawaited⟩) as

end YcAgent.Ondemand
