import YcAgent.Base.Strings

/-!
# Commands

A `Command` is the argument vector, with a marker in front when the command is to be
waited for instead of killed. `newCommand` builds the process description; the two kinds
of `CmdManager` differ in what `KillAndWait` does.
-/
namespace YcAgent.Executils

open Go

abbrev Command := List GoString

def nopCommand : Command := []

def waitCommand : GoString := str "<WaitCommand>"

/-- The description of a process; without an `env` the child inherits the agent's. -/
structure ExecCmd where
  name : GoString
  args : List GoString
  env : Option (List GoString)
  deriving DecidableEq

structure Hooker where
  before : Command → Command
  after : ExecCmd → ExecCmd

structure WaitCmd where
  cmd : Option ExecCmd
  deriving DecidableEq

structure Cmd extends WaitCmd
  deriving DecidableEq

inductive CmdManager where
  | waitCmd (c : WaitCmd)
  | cmd (c : Cmd)
  deriving DecidableEq

def CmdManager.isSkipped : CmdManager → Bool
  | .waitCmd c => c.cmd.isNone
  | .cmd c => c.cmd.isNone

/-- The global `Env` and what `os.Environ` returns. -/
structure Env where
  environ : List GoString
  extra : List GoString

def exec (e : Env) (name : GoString) (args : List GoString) : ExecCmd :=
  ⟨name, args, if 0 < e.extra.length then some (e.environ ++ e.extra) else none⟩

/-- `none` is the panic on a hooker that leaves no command or on a lone wait marker. -/
def newCommand (e : Env) (cmd : Command) (hookers : List Hooker) : Option CmdManager :=
  match cmd with
  | [] => some (.waitCmd ⟨none⟩)
  | first :: rest =>
    let wait : Bool := first = waitCommand
    let cmd := if wait then rest else first :: rest
    match hookers.foldl (fun cmd hooker => hooker.before cmd) cmd with
    | [] => none
    | name :: args =>
      let command := hookers.foldl (fun command hooker => hooker.after command) (exec e name args)
      some (if wait then .waitCmd ⟨some command⟩ else .cmd ⟨⟨some command⟩⟩)

/-- Only the empty command is skipped. -/
theorem newCommand_isSkipped {e : Env} {cmd : Command} {hookers : List Hooker} {m : CmdManager}
    (h : newCommand e cmd hookers = some m) : m.isSkipped = true ↔ cmd = nopCommand := by
  cases cmd with
  | nil =>
    cases h
    exact ⟨fun _ => rfl, fun _ => rfl⟩
  | cons first rest =>
    have hrun : m.isSkipped = false := by
      simp only [newCommand] at h
      split at h
      · cases h
      · cases h
        split <;> rfl
    simp [hrun, nopCommand]

/-- The process behind a command: what it printed and the error of waiting for it, once it
ended, and whether somebody waited for it already. -/
inductive Process where
  | absent
  | running
  | exited (output : GoString) (err : Option GoString) (reaped : Bool)
  deriving DecidableEq

/-- The bytes collected from the process. -/
def Process.output : Process → GoString
  | .exited output _ _ => output
  | _ => []

def Process.reap : Process → Process
  | .exited output err _ => .exited output err true
  | p => p

/-- Ended without an error. -/
def Process.Succeeded (p : Process) : Prop := ∃ output reaped, p = .exited output none reaped

/-- How the process moves on. -/
inductive Process.Next : Process → Process → Prop where
  | same (p : Process) : Process.Next p p
  | starts : Process.Next .absent .running
  | exits (output : GoString) (err : Option GoString) :
      Process.Next .running (.exited output err false)
  | reaped (output : GoString) (err : Option GoString) (reaped : Bool) :
      Process.Next (.exited output err reaped) (.exited output err true)

theorem Process.Next.succeeded {p q : Process} (h : p.Next q) (hp : p.Succeeded) :
    q.Succeeded ∧ q.output = p.output := by
  obtain ⟨output, reaped, rfl⟩ := hp
  cases h with
  | same => exact ⟨⟨output, reaped, rfl⟩, rfl⟩
  | reaped => exact ⟨⟨output, true, rfl⟩, rfl⟩

/-- What `KillAndWait` does before it waits: it returns an error value, or the kill went
through and it waits for the process. -/
inductive Killed where
  | returns (err : Option GoString)
  | waits
  deriving DecidableEq

def processDone : GoString := str "os: process already finished"

/-- `killErr` is the error of the signal itself, such as a process of another user. -/
def CmdManager.killAndWait (killErr : Option GoString) (p : Process) : CmdManager → Killed
  | .waitCmd _ => .returns none
  | .cmd c =>
    match c.cmd, p with
    | none, _ | _, .absent => .returns none
    | some _, .exited _ _ true => .returns (some processDone)
    | some _, .running | some _, .exited _ _ false =>
      match killErr with
      | some e => .returns (some e)
      | none => .waits

/-- A kill that fails would fail later too. -/
theorem CmdManager.killAndWait_next {killErr : Option GoString} {p q : Process} {m : CmdManager}
    (h : p.Next q) (hp : ∃ e, m.killAndWait killErr p = .returns (some e)) :
    ∃ e, m.killAndWait killErr q = .returns (some e) := by
  obtain ⟨e, he⟩ := hp
  cases m with
  | waitCmd c => simp [killAndWait] at he
  | cmd c =>
    obtain ⟨⟨command⟩⟩ := c
    cases command with
    | none => simp [killAndWait] at he
    | some command =>
      cases h with
      | same => exact ⟨e, he⟩
      | starts => simp [killAndWait] at he
      | exits output err => exact ⟨e, he⟩
      | reaped output err reaped => exact ⟨processDone, rfl⟩

end YcAgent.Executils
