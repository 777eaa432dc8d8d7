import YcAgent.Agent.CaptureDir
import YcAgent.Base.Run
import Mathlib.Logic.Function.Basic

/-!
# The modes that run together

`agent.Run` starts the API server, the run on demand and the M3 loop as goroutines of
one process. Requests capture under the lock `one`, the M3 loop under its `runLock` and
the run on demand under none. A capture command replaces `FullCapture` in `ProcessPids`;
what it does is its own affair.
-/
namespace YcAgent.Agent

open Go

section Options

variable (o : Options)

def onDemandMode : Bool :=
  let pid : GoString := o .pid
  0 < pid.length

def m3Mode : Bool := o .m3

def apiMode : Bool :=
  let port : Int := o .port
  0 < port

/-- `ProcessPids` runs a command for each pid and makes no capture. -/
def runsCaptureCmd : Bool :=
  let captureCmd : GoString := o .captureCmd
  0 < captureCmd.length

end Options

/-- The goroutines that capture; a request may call `ProcessPidsWithMutex` again. -/
inductive Actor where
  | m3
  | request (n : Nat)
  | onDemand
  deriving DecidableEq

/-- A capture on its way; a cycle of the M3 loop has the captures that its response asks
for inside it. -/
inductive Capture where
  | fullCapture (f : Frame)
  | runSingle (f : Frame) (nested : Option Frame)

/-- Under M3 the directory is taken to be there. -/
def fullCapture (o : Options) (timestamp : GoString) (home : Option Nat) : Frame :=
  Frame.enter o timestamp (!m3Mode o) home

/-- The capture that `ProcessPids` makes of one pid, unless it runs a command. -/
def processPid (o : Options) (timestamp : GoString) (home : Option Nat) : Option Frame :=
  if runsCaptureCmd o then none else some (fullCapture o timestamp home)

def Capture.step (o : Options) (w : World) : Capture → Op → Option (World × Option Capture)
  | .fullCapture f, op => (f.step o w op).map fun r => (r.1, r.2.map .fullCapture)
  | .runSingle f (some g), op => (g.step o w op).map fun r => (r.1, some (.runSingle f r.2))
  | .runSingle f none, .fin =>
    if f.stage = .body then some (w, some (.runSingle { f with stage := .fin } none)) else none
  | .runSingle f none, .enter timestamp =>
    if f.stage = .fin then some (w, some (.runSingle f (processPid o timestamp f.home))) else none
  | .runSingle f none, op => (f.step o w op).map fun r => (r.1, r.2.map (.runSingle · none))

/-- `ready` is between the locking and the captures, `done` behind the one cycle that the
M3 loop makes under its lock. -/
inductive Thread where
  | idle
  | ready
  | capturing (c : Capture)
  | done

structure State where
  world : World
  one : Bool
  runLock : Bool
  thread : Actor → Thread

def State.set (s : State) (a : Actor) (t : Thread) : State :=
  { s with thread := Function.update s.thread a t }

def Capture.after : Capture → Thread
  | .fullCapture _ => .ready
  | .runSingle _ _ => .done

/-- What `Run` starts, or none where it returns `ErrNothingCanBeDone`. -/
def run (o : Options) : Option (Actor → Bool) :=
  if !onDemandMode o && !apiMode o && !m3Mode o then none
  else some fun
    | .request _ => apiMode o
    | .onDemand => onDemandMode o
    | .m3 => !onDemandMode o && m3Mode o

def started (o : Options) (a : Actor) : Bool := (run o).any fun starts => starts a

/-- The capture that a goroutine begins. -/
def begins (o : Options) (timestamp : GoString) : Actor → Option Capture
  | .m3 => some (.runSingle (Frame.enter o timestamp true none) none)
  | .request _ => (processPid o timestamp none).map .fullCapture
  | .onDemand => some (.fullCapture (fullCapture o timestamp none))

def step (o : Options) (s : State) (act : Actor × Op) : Option State :=
  if started o act.1 then
    match s.thread act.1, act.2, act.1 with
    | .idle, .lock, .request n =>
      if s.one then none else some ({ s with one := true }.set (.request n) .ready)
    | .idle, .lock, .m3 =>
      if s.runLock then none else some ({ s with runLock := true }.set .m3 .ready)
    | .ready, .enter timestamp, a =>
      match begins o timestamp a with
      | some c => some (s.set a (.capturing c))
      | none => some s
    | .capturing c, op, a => (c.step o s.world op).map fun r =>
      { s with world := r.1 }.set a (r.2.elim c.after .capturing)
    | .ready, .unlock, .request n => some ({ s with one := false }.set (.request n) .idle)
    | .done, .unlock, .m3 => some ({ s with runLock := false }.set .m3 .idle)
    | _, _, _ => none
  else none

/-- A process that begins in a directory that is there. -/
structure Start where
  place : WorkDir
  here : DirPath
  there : place.getwd = some here

def Start.state (start : Start) : State where
  world := ⟨start.place, []⟩
  one := false
  runLock := false
  thread a := if a = .onDemand then .ready else .idle

/-- The states of the agent, whatever the order of its steps. -/
def Reaches (o : Options) (start : Start) (s : State) : Prop :=
  Transition.Reachable (step o) (fun _ _ _ => True) start.state s

/-- The goroutine is between the start and the end of a capture. -/
def State.Capturing (s : State) (a : Actor) : Prop := ∃ c, s.thread a = .capturing c

def State.Excludes (s : State) : Prop := ∀ a b, s.Capturing a → s.Capturing b → a = b

/-- All that a step of the agent can do. -/
inductive Moves (o : Options) (s : State) : State → Prop where
  | lock (n : Nat) (hthread : s.thread (.request n) = .idle) (hone : s.one = false) :
      Moves o s ({ s with one := true }.set (.request n) .ready)
  | lockM3 (hthread : s.thread .m3 = .idle) :
      Moves o s ({ s with runLock := true }.set .m3 .ready)
  | enter (a : Actor) (timestamp : GoString) {c : Capture} (hstarted : started o a = true)
      (hthread : s.thread a = .ready) (hbegins : begins o timestamp a = some c) :
      Moves o s (s.set a (.capturing c))
  | runCaptureCmd : Moves o s s
  | capture (a : Actor) (op : Op) {c : Capture} {w : World} {c' : Option Capture}
      (hthread : s.thread a = .capturing c) (hcapture : c.step o s.world op = some (w, c')) :
      Moves o s ({ s with world := w }.set a (c'.elim c.after .capturing))
  | unlock (n : Nat) (hthread : s.thread (.request n) = .ready) :
      Moves o s ({ s with one := false }.set (.request n) .idle)
  | unlockM3 (hthread : s.thread .m3 = .done) :
      Moves o s ({ s with runLock := false }.set .m3 .idle)

theorem moves_of_step {o : Options} {s t : State} {act : Actor × Op} (h : step o s act = some t) :
    Moves o s t := by
  obtain ⟨a, op⟩ := act
  unfold step at h
  split at h
  · rename_i hstarted
    dsimp only at h hstarted
    split at h
    · rename_i hthread
      split at h
      · cases h
      · rename_i hone
        obtain rfl := Option.some.inj h
        exact .lock _ hthread (Bool.eq_false_iff.mpr hone)
    · rename_i hthread
      split at h
      · cases h
      · obtain rfl := Option.some.inj h
        exact .lockM3 hthread
    · rename_i hthread
      split at h
      · rename_i hbegins
        obtain rfl := Option.some.inj h
        exact .enter _ _ hstarted hthread hbegins
      · obtain rfl := Option.some.inj h
        exact .runCaptureCmd
    · rename_i hthread
      obtain ⟨r, hcapture, rfl⟩ := Option.map_eq_some_iff.mp h
      exact .capture _ _ hthread hcapture
    · rename_i hthread
      obtain rfl := Option.some.inj h
      exact .unlock _ hthread
    · rename_i hthread
      obtain rfl := Option.some.inj h
      exact .unlockM3 hthread
    · cases h
  · cases h

@[simp] theorem State.thread_set_self (s : State) (a : Actor) (t : Thread) :
    (s.set a t).thread a = t := Function.update_self ..

theorem State.thread_set_of_ne (s : State) {a b : Actor} (t : Thread) (h : b ≠ a) :
    (s.set a t).thread b = s.thread b := Function.update_of_ne h ..

end YcAgent.Agent
