import YcAgent.Base.Run
import YcAgent.Executils.Cmd

/-!
# The race of a command with its timer

`CommandCombinedOutputToWriter` runs the command in a goroutine and waits for its signal
or for the timer. Both sides assign the result `err`. The state has the position of the
goroutine, the process, the writer, the shared `err` and the position of the caller, and
any of them may move next.
-/
namespace YcAgent.Executils.ToWriter

open Go

/-- How the outside behaves; an `Option` is the error of its step. -/
structure World where
  startErr : Option GoString
  output : GoString
  exitErr : Option GoString
  killErr : Option GoString
  /-- The error of waiting for a killed process. -/
  killedErr : GoString
  /-- The error of waiting for a process that was waited for before. -/
  waitErr : GoString
  /-- How many bytes the writer takes and its error, when it does not take all of them. -/
  write : Option (Nat × GoString)

def World.accepted (w : World) (output : GoString) : GoString :=
  match w.write with
  | some (n, _) => output.take n
  | none => output

def World.writeErr (w : World) : Option GoString := w.write.map Prod.snd

/-- Where the goroutine is: inside `CombinedOutput` until the process is reaped and then
until its pipe is drained, before the assignment of the result, before the test of `err`,
in one of the two branches, or at the signal. -/
inductive Routine where
  | calling
  | draining (err : Option GoString)
  | returned (err : Option GoString)
  | assigned
  | failed
  | because
  | noted (e : Option GoString)
  | succeeded
  | wrote (e : Option GoString)
  | sending
  | finished
  deriving DecidableEq

inductive Caller where
  | selecting
  | killing
  | waiting
  | returning
  | returned (err : Option GoString)
  deriving DecidableEq

structure State where
  routine : Routine
  process : Process
  written : GoString
  err : Option GoString
  expired : Bool
  caller : Caller
  deriving DecidableEq

inductive Action where
  | start
  | exits
  | dies (n : Nat)
  | reap
  | drained
  | assign
  | test
  | wrap
  | write
  | record
  | expire
  | takeTimer
  | takeDone
  | kill
  | waited
  | ret
  deriving DecidableEq

def init (m : CmdManager) : State :=
  if m.isSkipped then ⟨.finished, .absent, [], none, false, .returned none⟩
  else ⟨.calling, .absent, [], none, false, .selecting⟩

/-- The text of an error that `%w` formats. -/
def errorText (err : Option GoString) : GoString := err.getD (str "%!w(<nil>)")

def becauseErr (err : Option GoString) (output : GoString) : GoString :=
  errorText err ++ str " because " ++ output

def andErr (err : Option GoString) (e : GoString) : GoString := errorText err ++ str " and " ++ e

section Step

variable (m : CmdManager) (w : World)

def step (s : State) : Action → Option State
  | .start =>
    match s.routine, s.process with
    | .calling, .absent =>
      match w.startErr with
      | some e => some { s with routine := .returned (some e) }
      | none => some { s with process := .running }
    | _, _ => none
  | .exits =>
    if s.process = .running then some { s with process := .exited w.output w.exitErr false }
    else none
  | .dies n =>
    -- the caller waits only for a process it has signalled
    if s.process = .running ∧ s.caller = .waiting then
      some { s with process := .exited (w.output.take n) (some w.killedErr) false }
    else none
  | .reap =>
    match s.routine, s.process with
    | .calling, .exited _ err reaped =>
      some { s with
        routine := .draining (if reaped then some w.waitErr else err)
        process := s.process.reap }
    | _, _ => none
  | .drained =>
    match s.routine with
    | .draining err => some { s with routine := .returned err }
    | _ => none
  | .assign =>
    match s.routine with
    | .returned err => some { s with routine := .assigned, err }
    | _ => none
  | .test =>
    if s.routine = .assigned then
      some { s with routine := if s.err.isSome then .failed else .succeeded }
    else none
  | .wrap =>
    if s.routine = .failed then
      let output := s.process.output
      some { s with
        routine := .because
        err := if 1 < output.length then some (becauseErr s.err output) else s.err }
    else none
  | .write =>
    match s.routine with
    | .because => some { s with
        routine := .noted w.writeErr
        written := s.written ++ w.accepted s.process.output }
    | .succeeded => some { s with
        routine := .wrote w.writeErr
        written := s.written ++ w.accepted s.process.output }
    | _ => none
  | .record =>
    match s.routine with
    | .noted none => some { s with routine := .sending }
    | .noted (some e) => some { s with routine := .sending, err := some (andErr s.err e) }
    | .wrote e => some { s with routine := .sending, err := e }
    | _ => none
  | .expire => if s.caller = .selecting then some { s with expired := true } else none
  | .takeTimer =>
    if s.caller = .selecting ∧ s.expired = true then some { s with caller := .killing } else none
  | .takeDone =>
    if s.caller = .selecting ∧ s.routine = .sending then
      some { s with routine := .finished, caller := .returning }
    else none
  | .kill =>
    if s.caller = .killing then
      match m.killAndWait w.killErr s.process with
      | .returns err => some { s with err, caller := .returning }
      | .waits => some { s with caller := .waiting }
    else none
  | .waited =>
    match s.caller, s.process with
    | .waiting, .exited _ _ _ =>
      some { s with process := s.process.reap, err := none, caller := .returning }
    | _, _ => none
  | .ret => if s.caller = .returning then some { s with caller := .returned s.err } else none

/-- Everything one step can do. -/
inductive Moves (s : State) : Action → State → Prop where
  | startFails {e : GoString} (hr : s.routine = .calling) (hp : s.process = .absent) :
      Moves s .start { s with routine := .returned (some e) }
  | starts (hr : s.routine = .calling) (hp : s.process = .absent) :
      Moves s .start { s with process := .running }
  | exits (hp : s.process = .running) :
      Moves s .exits { s with process := .exited w.output w.exitErr false }
  | dies (n : Nat) (hp : s.process = .running) (hc : s.caller = .waiting) :
      Moves s (.dies n)
        { s with process := .exited (w.output.take n) (some w.killedErr) false }
  | reaps {output : GoString} {err : Option GoString} {reaped : Bool}
      (hr : s.routine = .calling) (hp : s.process = .exited output err reaped) :
      Moves s .reap
        { s with
          routine := .draining (if reaped then some w.waitErr else err)
          process := .exited output err true }
  | drains {err : Option GoString} (hr : s.routine = .draining err) :
      Moves s .drained { s with routine := .returned err }
  | assigns {err : Option GoString} (hr : s.routine = .returned err) :
      Moves s .assign { s with routine := .assigned, err }
  | fails (hr : s.routine = .assigned) (he : s.err ≠ none) :
      Moves s .test { s with routine := .failed }
  | succeeds (hr : s.routine = .assigned) (he : s.err = none) :
      Moves s .test { s with routine := .succeeded }
  | wraps {err : Option GoString} (hr : s.routine = .failed) (he : s.err ≠ none → err ≠ none) :
      Moves s .wrap { s with routine := .because, err }
  | writesFailed (hr : s.routine = .because) :
      Moves s .write { s with
        routine := .noted w.writeErr
        written := s.written ++ w.accepted s.process.output }
  | writes (hr : s.routine = .succeeded) :
      Moves s .write { s with
        routine := .wrote w.writeErr
        written := s.written ++ w.accepted s.process.output }
  | notes {e err : Option GoString} (hr : s.routine = .noted e) (he : s.err ≠ none → err ≠ none) :
      Moves s .record { s with routine := .sending, err }
  | records {e : Option GoString} (hr : s.routine = .wrote e) :
      Moves s .record { s with routine := .sending, err := e }
  | expires (hc : s.caller = .selecting) : Moves s .expire { s with expired := true }
  | takesTimer (hc : s.caller = .selecting) (hx : s.expired = true) :
      Moves s .takeTimer { s with caller := .killing }
  | takesDone (hc : s.caller = .selecting) (hr : s.routine = .sending) :
      Moves s .takeDone { s with routine := .finished, caller := .returning }
  | kills {err : Option GoString} (hc : s.caller = .killing)
      (hk : m.killAndWait w.killErr s.process = .returns err) :
      Moves s .kill { s with err, caller := .returning }
  | signals (hc : s.caller = .killing) (hk : m.killAndWait w.killErr s.process = .waits) :
      Moves s .kill { s with caller := .waiting }
  | waits {output : GoString} {err : Option GoString} {reaped : Bool} (hc : s.caller = .waiting)
      (hp : s.process = .exited output err reaped) :
      Moves s .waited
        { s with process := .exited output err true, err := none, caller := .returning }
  | returns (hc : s.caller = .returning) : Moves s .ret { s with caller := .returned s.err }

variable {m w}

theorem moves_of_step {s t : State} {a : Action} (h : step m w s a = some t) :
    Moves m w s a t := by
  cases a with
  | start =>
    simp only [step] at h
    split at h
    · rename_i hr hp
      split at h
      · cases h
        exact .startFails hr hp
      · cases h
        exact .starts hr hp
    · cases h
  | exits =>
    simp only [step, Option.ite_none_right_eq_some] at h
    obtain ⟨hp, h⟩ := h
    cases h
    exact .exits hp
  | dies n =>
    simp only [step, Option.ite_none_right_eq_some] at h
    obtain ⟨⟨hp, hc⟩, h⟩ := h
    cases h
    exact .dies n hp hc
  | reap =>
    simp only [step] at h
    split at h
    · rename_i output err reaped hr hp
      cases h
      rw [hp]
      exact .reaps hr hp
    · cases h
  | drained =>
    simp only [step] at h
    split at h
    · rename_i err hr
      cases h
      exact .drains hr
    · cases h
  | assign =>
    simp only [step] at h
    split at h
    · rename_i err hr
      cases h
      exact .assigns hr
    · cases h
  | test =>
    simp only [step, Option.ite_none_right_eq_some] at h
    obtain ⟨hr, h⟩ := h
    cases h
    split
    · rename_i he
      exact .fails hr (Option.isSome_iff_ne_none.mp he)
    · rename_i he
      exact .succeeds hr (by simpa using he)
  | wrap =>
    simp only [step, Option.ite_none_right_eq_some] at h
    obtain ⟨hr, h⟩ := h
    cases h
    refine .wraps hr fun he => ?_
    split
    · exact Option.some_ne_none _
    · exact he
  | write =>
    simp only [step] at h
    split at h
    · rename_i hr
      cases h
      exact .writesFailed hr
    · rename_i hr
      cases h
      exact .writes hr
    · cases h
  | record =>
    simp only [step] at h
    split at h
    · rename_i hr
      cases h
      exact .notes hr id
    · rename_i e hr
      cases h
      exact .notes hr fun _ => Option.some_ne_none _
    · rename_i e hr
      cases h
      exact .records hr
    · cases h
  | expire =>
    simp only [step, Option.ite_none_right_eq_some] at h
    obtain ⟨hc, h⟩ := h
    cases h
    exact .expires hc
  | takeTimer =>
    simp only [step, Option.ite_none_right_eq_some] at h
    obtain ⟨⟨hc, hx⟩, h⟩ := h
    cases h
    exact .takesTimer hc hx
  | takeDone =>
    simp only [step, Option.ite_none_right_eq_some] at h
    obtain ⟨⟨hc, hr⟩, h⟩ := h
    cases h
    exact .takesDone hc hr
  | kill =>
    simp only [step, Option.ite_none_right_eq_some] at h
    obtain ⟨hc, h⟩ := h
    split at h
    · rename_i err hk
      cases h
      exact .kills hc hk
    · rename_i hk
      cases h
      exact .signals hc hk
  | waited =>
    simp only [step] at h
    split at h
    · rename_i output err reaped hc hp
      cases h
      rw [hp]
      exact .waits hc hp
    · cases h
  | ret =>
    simp only [step, Option.ite_none_right_eq_some] at h
    obtain ⟨hc, h⟩ := h
    cases h
    exact .returns hc

end Step

end YcAgent.Executils.ToWriter
