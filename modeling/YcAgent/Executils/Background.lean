import Mathlib.Data.UInt
import YcAgent.Base.Handle
import YcAgent.Base.Strconv
import YcAgent.Executils.Cmd

/-!
# Commands that write to an open file

A command is started with the file as its output and waited for, or run at once for its
combined output. A session is the file and the commands that were tried, so the world is
asked how the `n`-th of them ends. A command of nothing but the wait marker panics.
-/
namespace YcAgent.Executils.Background

open Go

def dynamicArg : GoString := str "<DynamicArg>"

def shell : Command := [str "/bin/sh", str "-c"]

/-- `Append`. -/
def append (c : Command) (args : List GoString) : Command :=
  if c.length < 1 then nopCommand else c ++ args

/-- The text of a command for the shell, with the arguments in the places of the marks. -/
def dynamicText : Command → List GoString → GoString
  | [], _ => []
  | c :: cmd, args =>
    if c = waitCommand then dynamicText cmd args
    else if c = dynamicArg then args.headD [] ++ (space :: dynamicText cmd args.tail)
    else c ++ (space :: dynamicText cmd args)

/-- `AddDynamicArg`, of a command that is a variable of the package. -/
def addDynamicArg (cmd : Command) (args : List GoString) : Command :=
  if cmd.length < 1 then nopCommand
  else if cmd.count dynamicArg ≠ args.length then cmd
  else if cmd.head? = some waitCommand then waitCommand :: (shell ++ [dynamicText cmd args])
  else shell ++ [dynamicText cmd args]

example : addDynamicArg [waitCommand, str "vmstat", dynamicArg, dynamicArg] [str "5", str "5"] =
    [waitCommand, str "/bin/sh", str "-c", str "vmstat 5 5 "] := by decide

/-- A process that has ended, with what it printed and the error of waiting for it. -/
structure Exit where
  output : GoString
  code : Int
  waitErr : Option GoString
  isSome_waitErr : waitErr.isSome = true ↔ code ≠ 0

theorem isSome_none_iff : (none : Option GoString).isSome = true ↔ (0 : Int) ≠ 0 := by decide

/-- What trying a command comes to: it cannot be started, or it ends. -/
inductive Run where
  | fails (err : GoString)
  | exits (exit : Exit)

def Run.output : Run → GoString
  | .fails _ => []
  | .exits exit => exit.output

/-- How the `n`-th command ends, what the clock says before it, and the error of reading a
file with how many bytes come before it. -/
structure World where
  env : Env
  executable : GoString
  run : Nat → Command → Run
  now : Nat → GoString
  readErr : Option (Nat × GoString)

/-- What trying a command comes to, where there is something to run. -/
def World.result (w : World) (n : Nat) (cmd : Command) : Option Run :=
  match newCommand w.env cmd [] with
  | none => none
  | some c => if c.isSkipped then none else some (w.run n cmd)

structure Session where
  file : Handle Byte
  ran : List Command

def Session.created : Session := ⟨Handle.create, []⟩

@[simp] theorem file_created : Session.created.file = Handle.create := rfl

@[simp] theorem ran_created : Session.created.ran = [] := rfl

/-- A `CmdManager` behind its start. -/
inductive Manager where
  | skipped
  | unstarted
  | ended (exit : Exit)

def Manager.isSkipped : Manager → Bool
  | .skipped => true
  | _ => false

def Manager.wait : Manager → Option GoString
  | .skipped => none
  | .unstarted => some (str "exec: not started")
  | .ended exit => exit.waitErr

def Manager.exitCode : Manager → Int
  | .ended exit => exit.code
  | _ => -1

def Manager.output : Manager → GoString
  | .ended exit => exit.output
  | _ => []

/-- `CommandStartInBackgroundToWriter`. Nothing else touches the file until the command is
waited for, so what it prints is there at once. -/
def commandStartInBackgroundToWriter (w : World) (cmd : Command) (s : Session) :
    Option (Manager × Option GoString × Session) :=
  if cmd.length < 1 then some (.skipped, none, s)
  else
    match newCommand w.env cmd [] with
    | none => none
    | some c =>
      if c.isSkipped then some (.skipped, none, s)
      else
        match w.run s.ran.length cmd with
        | .fails err => some (.unstarted, some err, { s with ran := s.ran ++ [cmd] })
        | .exits exit =>
          some (.ended exit, none, ⟨s.file.write exit.output, s.ran ++ [cmd]⟩)

def becauseErr (output err : GoString) : GoString :=
  if 1 < output.length then err ++ str " because " ++ output else err

/-- `CommandCombinedOutputToWriter`, of a command that ends within its minute. -/
def commandCombinedOutputToWriter (w : World) (cmd : Command) (s : Session) :
    Option (Option GoString × Session) :=
  match newCommand w.env cmd [] with
  | none => none
  | some c =>
    if c.isSkipped then some (none, s)
    else
      match w.run s.ran.length cmd with
      | .fails err => some (some err, { s with ran := s.ran ++ [cmd] })
      | .exits exit =>
        some (exit.waitErr.map (becauseErr exit.output),
          ⟨s.file.write exit.output, s.ran ++ [cmd]⟩)

section Results

variable {w : World} {cmd : Command} {s : Session}

theorem result_eq_some_iff {n : Nat} {run : Run} :
    w.result n cmd = some run ↔
      (∃ c, newCommand w.env cmd [] = some c ∧ c.isSkipped = false) ∧ w.run n cmd = run := by
  unfold World.result
  cases hcmd : newCommand w.env cmd [] with
  | none => simp
  | some c => cases hskip : c.isSkipped <;> simp [hskip]

theorem length_of_result {n : Nat} {run : Run} (h : w.result n cmd = some run) :
    ¬ cmd.length < 1 := by
  intro hlen
  obtain ⟨⟨c, hcmd, hskip⟩, -⟩ := result_eq_some_iff.mp h
  have hnil : cmd = [] := List.length_eq_zero_iff.mp (Nat.lt_one_iff.mp hlen)
  have htrue := (newCommand_isSkipped hcmd).mpr hnil
  rw [hskip] at htrue
  cases htrue

/-- A command that cannot be started leaves the file alone. -/
theorem start_fails {err : GoString} (h : w.result s.ran.length cmd = some (.fails err)) :
    commandStartInBackgroundToWriter w cmd s =
      some (.unstarted, some err, { s with ran := s.ran ++ [cmd] }) := by
  have hlen := length_of_result h
  obtain ⟨⟨c, hcmd, hskip⟩, hrun⟩ := result_eq_some_iff.mp h
  simp [commandStartInBackgroundToWriter, hlen, hcmd, hskip, hrun]

theorem start_exits {exit : Exit} (h : w.result s.ran.length cmd = some (.exits exit)) :
    commandStartInBackgroundToWriter w cmd s =
      some (.ended exit, none, ⟨s.file.write exit.output, s.ran ++ [cmd]⟩) := by
  have hlen := length_of_result h
  obtain ⟨⟨c, hcmd, hskip⟩, hrun⟩ := result_eq_some_iff.mp h
  simp [commandStartInBackgroundToWriter, hlen, hcmd, hskip, hrun]

theorem combinedOutput_fails {err : GoString}
    (h : w.result s.ran.length cmd = some (.fails err)) :
    commandCombinedOutputToWriter w cmd s =
      some (some err, { s with ran := s.ran ++ [cmd] }) := by
  obtain ⟨⟨c, hcmd, hskip⟩, hrun⟩ := result_eq_some_iff.mp h
  simp [commandCombinedOutputToWriter, hcmd, hskip, hrun]

theorem combinedOutput_exits {exit : Exit}
    (h : w.result s.ran.length cmd = some (.exits exit)) :
    commandCombinedOutputToWriter w cmd s =
      some (exit.waitErr.map (becauseErr exit.output),
        ⟨s.file.write exit.output, s.ran ++ [cmd]⟩) := by
  obtain ⟨⟨c, hcmd, hskip⟩, hrun⟩ := result_eq_some_iff.mp h
  simp [commandCombinedOutputToWriter, hcmd, hskip, hrun]

end Results

section Exits

variable {exit : Exit}

theorem Exit.waitErr_of_code (h : exit.code = 0) : exit.waitErr = none := by
  rw [← Option.not_isSome_iff_eq_none, exit.isSome_waitErr]
  exact fun hne => hne h

theorem Exit.waitErr_of_code_ne (h : exit.code ≠ 0) : ∃ err, exit.waitErr = some err :=
  Option.isSome_iff_exists.mp (exit.isSome_waitErr.mpr h)

end Exits

end YcAgent.Executils.Background
