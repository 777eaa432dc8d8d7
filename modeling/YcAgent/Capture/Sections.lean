import Mathlib.Data.UInt
import YcAgent.Base.Attempts
import YcAgent.Base.FilePath
import YcAgent.Executils.Background
import YcAgent.Executils.Hookers

/-!
# Captures with several sections in one file

`HDSub` writes four sections and `NetStat` two snapshots, each behind a header, and each with
fallbacks that go on in the same file. A command that fails has its output written like one
that succeeds, so a section holds one tool's output only where the failures before it print
nothing. What is between two snapshots belongs to the header of the second.
-/
namespace YcAgent.Capture.Sections

open Go Executils Executils.Background

/-- `CommandCombinedOutputToWriter` with its hookers, of a command that ends within its minute
and a file that can be written to. -/
def commandCombinedOutputToWriter (e : Executils.Env) (cmd : Executils.Command) (hooks : List Hook)
    (run : ExecCmd → Run) (file : Handle Byte) : Option (Option GoString × Handle Byte) :=
  match newCommand e cmd (hooks.map Hook.hooker) with
  | none => none
  | some c =>
    match c.exec with
    | none => some (none, file)
    | some process =>
      match run process with
      | .fails err => some (some err, file)
      | .exits exit => some (exit.waitErr.map (becauseErr exit.output), file.write exit.output)

/-- What a process comes to. -/
def ofRun : Run → Go.Attempt Byte
  | .fails _ => ⟨[], false⟩
  | .exits exit => ⟨exit.output, exit.waitErr.isNone⟩

/-- The attempt that a command is; nothing to run is a success without output. -/
def ofCommand (e : Executils.Env) (cmd : Executils.Command) (hooks : List Hook)
    (run : ExecCmd → Run) : Go.Attempt Byte :=
  match (newCommand e cmd (hooks.map Hook.hooker)).bind CmdManager.exec with
  | none => ⟨[], true⟩
  | some process => ofRun (run process)

/-! ## `HDSub` -/

structure HDSub where
  javaHome : GoString
  pid : Int

/-- What the attempts of the `k`-th section come to. -/
structure HDSub.World where
  env : Executils.Env
  executable : GoString
  user : SudoWorld
  jcmd : Nat → ExecCmd → Run
  jattach : Nat → ExecCmd → Run
  copy2TempPath : Nat → Except GoString GoString
  tmpJattach : Nat → ExecCmd → Run

namespace HDSub

variable (t : HDSub) (w : World)

def jcmdCommand (command : GoString) : Executils.Command :=
  [FilePath.joinPath [t.javaHome, str "bin/jcmd"], itoa t.pid, command]

def jattachCommand (executable command : GoString) : Executils.Command :=
  [executable, str "-p", itoa t.pid, str "-jCmdCaptureMode", command]

def executeJcmd (k : Nat) (command : GoString) (file : Handle Byte) :
    Option (Option GoString × Handle Byte) := do
  let (err, file) ← commandCombinedOutputToWriter w.env (t.jcmdCommand command)
    [.runAs w.user t.pid] (w.jcmd k) file
  if err.isNone then return (none, file)
  else
    let (err, file) ← commandCombinedOutputToWriter w.env (t.jattachCommand w.executable command)
      [pidHook t.pid, .runAs w.user t.pid] (w.jattach k) file
    if err.isNone then return (none, file)
    else
      match w.copy2TempPath k with
      | .error err => return (some (str "failed to create temp jattach: " ++ err), file)
      | .ok tempPath =>
        let (err, file) ← commandCombinedOutputToWriter w.env (t.jattachCommand tempPath command)
          [pidHook t.pid, .runAs w.user t.pid] (w.tmpJattach k) file
        return (err.map fun err => str "failed to capture " ++ command ++ str ": " ++ err, file)

/-- A header and what the command for it prints. -/
def captureSection (k : Nat) (header command : GoString) (s : Sheet Byte) :
    Option (Option GoString × Sheet Byte) := do
  let headed := s.file.write header
  let (err, file) ← t.executeJcmd w k command headed
  return (err, s.close headed file)

def captureClassHistogram : Sheet Byte → Option (Option GoString × Sheet Byte) :=
  t.captureSection w 0 (str "GC.class_histogram:\n") (str "GC.class_histogram -all")

def captureSystemProperties : Sheet Byte → Option (Option GoString × Sheet Byte) :=
  t.captureSection w 1 (str "\nVM.system_properties:\n") (str "VM.system_properties")

def captureHeapInfo : Sheet Byte → Option (Option GoString × Sheet Byte) :=
  t.captureSection w 2 (str "\nGC.heap_info:\n") (str "GC.heap_info")

def captureVMFlags : Sheet Byte → Option (Option GoString × Sheet Byte) :=
  t.captureSection w 3 (str "\nVM.flags:\n") (str "VM.flags")

/-- Errors of a section are only logged. -/
def captureToFile : Option (Sheet Byte) := do
  let (_, s) ← t.captureClassHistogram w Sheet.create
  let (_, s) ← t.captureSystemProperties w s
  let (_, s) ← t.captureHeapInfo w s
  let (_, s) ← t.captureVMFlags w s
  return s

/-- The attempts at the `k`-th section. -/
def attempts (k : Nat) (command : GoString) : List (Go.Attempt Byte) :=
  [ofCommand w.env (t.jcmdCommand command) [.runAs w.user t.pid] (w.jcmd k),
    ofCommand w.env (t.jattachCommand w.executable command)
      [pidHook t.pid, .runAs w.user t.pid] (w.jattach k)] ++
    match w.copy2TempPath k with
    | .error _ => []
    | .ok tempPath => [ofCommand w.env (t.jattachCommand tempPath command)
        [pidHook t.pid, .runAs w.user t.pid] (w.tmpJattach k)]

def chains : List (List (Go.Attempt Byte)) :=
  [t.attempts w 0 (str "GC.class_histogram -all"), t.attempts w 1 (str "VM.system_properties"),
    t.attempts w 2 (str "GC.heap_info"), t.attempts w 3 (str "VM.flags")]

end HDSub

/-! ## `NetStat` -/

inductive System where
  | linux
  | solaris
  | aix
  | darwin
  | windows

/-- `NetState`. -/
def System.netState : System → Executils.Command
  | .linux => [str "netstat", str "-pan"]
  | .solaris => [str "netstat", str "-pan"]
  | .aix => [str "netstat", str "-a"]
  | .darwin => [str "netstat", str "-an"]
  | .windows => [str "netstat", str "-an"]

/-- What the built-in `netStat` writes, and its error. -/
structure NativeRun where
  output : GoString
  err : Option GoString

/-- What the attempts at the `k`-th snapshot come to, and the time of it. -/
structure NetStat.World where
  env : Executils.Env
  system : System
  now : Nat → GoString
  netState : Nat → ExecCmd → Run
  netStat : Nat → NativeRun

namespace NetStat

variable (w : World)

/-- `CaptureToFile`; there is no file before the capture is set up and after it is closed. -/
def captureToFile (k : Nat) : Option (Sheet Byte) →
    Option (Option GoString × Option (Sheet Byte))
  | none => some (some (str "netstat is not initialized or already closed"), none)
  | some s => do
    let headed := s.file.write (w.now k ++ str "\n")
    let (err, file) ← commandCombinedOutputToWriter w.env w.system.netState [] (w.netState k) headed
    if err.isSome then
      let native := w.netStat k
      return (native.err.map (str "failed to capture netstat: " ++ ·),
        some (s.close headed (file.write native.output)))
    else return (none, some (s.close headed file))

/-- `Run`, up to the upload. -/
def run : Option (Option (Sheet Byte)) := do
  let (_, s) ← captureToFile w 0 (some Sheet.create)
  let s := s.map fun s => { s with file := s.file.write (str "\n") }
  let (_, s) ← captureToFile w 1 s
  return s

def attempts (k : Nat) : List (Go.Attempt Byte) :=
  [ofCommand w.env w.system.netState [] (w.netState k),
    ⟨(w.netStat k).output, (w.netStat k).err.isNone⟩]

def chains : List (List (Go.Attempt Byte)) := [attempts w 0, attempts w 1]

end NetStat

/-- Every section with an attempt that succeeds holds the output of the first one. -/
def OneTool (s : Sheet Byte) (chains : List (List (Go.Attempt Byte))) : Prop :=
  List.Forall₂ (fun text attempts => ∀ a, Go.Attempt.firstOk attempts = some a → text = a.output)
    s.texts chains

theorem oneTool_iff_of_texts {s : Sheet Byte} {chains : List (List (Go.Attempt Byte))}
    (h : s.texts = chains.map Go.Attempt.written) :
    OneTool s chains ↔ ∀ attempts ∈ chains, Go.Attempt.FailsSilently attempts := by
  rw [OneTool, h, List.forall₂_map_left_iff, List.forall₂_same]
  refine forall₂_congr fun attempts _ => ?_
  unfold Go.Attempt.FailsSilently
  cases hfirst : Go.Attempt.firstOk attempts with
  | none => exact iff_of_true nofun fun h => absurd rfl h
  | some a =>
    rw [← Go.Attempt.written_eq_iff hfirst]
    constructor
    · intro h _
      exact h a rfl
    · intro h b hb
      rw [← Option.some.inj hb]
      exact h (Option.some_ne_none a)

/-! ## The sections -/

/-- The command adds its output and returns nil where it succeeds. -/
theorem combinedOutput_spec (e : Executils.Env) (cmd : Executils.Command) (hooks : List Hook)
    (h : 1 < cmd.length) (run : ExecCmd → Run) (file : Handle Byte) :
    ∃ err file', commandCombinedOutputToWriter e cmd hooks run file = some (err, file') ∧
      err.isNone = (ofCommand e cmd hooks run).ok ∧
      file.Appends file' (ofCommand e cmd hooks run).output := by
  obtain ⟨m, c, hm, hc⟩ := exists_exec e hooks h
  have hattempt : ofCommand e cmd hooks run = ofRun (run c) := by
    simp [ofCommand, hm, hc]
  rw [hattempt]
  cases hrun : run c with
  | fails err =>
    refine ⟨some err, file, ?_, rfl, Handle.Appends.refl file⟩
    simp [commandCombinedOutputToWriter, hm, hc, hrun]
  | exits exit =>
    refine ⟨exit.waitErr.map (becauseErr exit.output), file.write exit.output, ?_, ?_,
      Handle.appends_write file exit.output⟩
    · simp [commandCombinedOutputToWriter, hm, hc, hrun]
    · rw [Option.isNone_map]
      rfl

namespace HDSub

variable {t : HDSub} {w : World}

theorem executeJcmd_spec (k : Nat) (command : GoString) (file : Handle Byte) :
    ∃ err file', t.executeJcmd w k command file = some (err, file') ∧
      file.Appends file' (Go.Attempt.written (t.attempts w k command)) := by
  obtain ⟨e₁, f₁, hjcmd, hok₁, happends₁⟩ := combinedOutput_spec w.env
    (t.jcmdCommand command) [.runAs w.user t.pid] (by simp [jcmdCommand]) (w.jcmd k) file
  obtain ⟨e₂, f₂, hjattach, hok₂, happends₂⟩ := combinedOutput_spec w.env
    (t.jattachCommand w.executable command) [pidHook t.pid, .runAs w.user t.pid]
    (by simp [jattachCommand]) (w.jattach k) f₁
  rw [attempts, List.cons_append]
  cases e₁ with
  | none =>
    refine ⟨none, f₁, by simp [executeJcmd, hjcmd], ?_⟩
    rw [Go.Attempt.written_cons_ok hok₁.symm]
    exact happends₁
  | some err₁ =>
    rw [Go.Attempt.written_cons_failed hok₁.symm, List.cons_append]
    cases e₂ with
    | none =>
      refine ⟨none, f₂, by simp [executeJcmd, hjcmd, hjattach], ?_⟩
      rw [Go.Attempt.written_cons_ok hok₂.symm]
      exact happends₁.trans happends₂
    | some err₂ =>
      rw [Go.Attempt.written_cons_failed hok₂.symm, List.nil_append]
      cases hcopy : w.copy2TempPath k with
      | error err =>
        refine ⟨_, f₂, by simp [executeJcmd, hjcmd, hjattach, hcopy]; rfl, ?_⟩
        exact happends₁.trans (happends₂.trans (Handle.Appends.refl f₂))
      | ok tempPath =>
        obtain ⟨e₃, f₃, htmp, hok₃, happends₃⟩ := combinedOutput_spec w.env
          (t.jattachCommand tempPath command) [pidHook t.pid, .runAs w.user t.pid]
          (by simp [jattachCommand]) (w.tmpJattach k) f₂
        refine ⟨_, f₃, by simp [executeJcmd, hjcmd, hjattach, hcopy, htmp]; rfl, ?_⟩
        rw [Go.Attempt.written_singleton]
        exact happends₁.trans (happends₂.trans happends₃)

theorem captureSection_spec {s : Sheet Byte} (hs : s.Inv) (k : Nat) (header command : GoString) :
    ∃ err s', t.captureSection w k header command s = some (err, s') ∧ s'.Inv ∧
      s'.texts = s.texts ++ [Go.Attempt.written (t.attempts w k command)] := by
  obtain ⟨err, file, hexecute, happends⟩ :=
    executeJcmd_spec (t := t) (w := w) k command (s.file.write header)
  refine ⟨err, s.close (s.file.write header) file, by simp [captureSection, hexecute], ?_⟩
  exact Sheet.texts_close hs (Handle.appends_write s.file header) happends

/-- The file holds what the four chains of attempts write. -/
theorem captureToFile_spec (t : HDSub) (w : World) :
    ∃ s, t.captureToFile w = some s ∧ s.texts = (t.chains w).map Go.Attempt.written := by
  obtain ⟨e₁, s₁, hhistogram, hinv₁, htexts₁⟩ := captureSection_spec (t := t) (w := w)
    Sheet.inv_create 0 (str "GC.class_histogram:\n") (str "GC.class_histogram -all")
  obtain ⟨e₂, s₂, hproperties, hinv₂, htexts₂⟩ := captureSection_spec (t := t) (w := w)
    hinv₁ 1 (str "\nVM.system_properties:\n") (str "VM.system_properties")
  obtain ⟨e₃, s₃, hheap, hinv₃, htexts₃⟩ := captureSection_spec (t := t) (w := w)
    hinv₂ 2 (str "\nGC.heap_info:\n") (str "GC.heap_info")
  obtain ⟨e₄, s₄, hflags, -, htexts₄⟩ := captureSection_spec (t := t) (w := w)
    hinv₃ 3 (str "\nVM.flags:\n") (str "VM.flags")
  refine ⟨s₄, ?_, ?_⟩
  · simp only [captureToFile, captureClassHistogram, captureSystemProperties, captureHeapInfo,
      captureVMFlags, hhistogram, hproperties, hheap, hflags, Option.bind_eq_bind,
      Option.bind_some, Option.pure_def]
  · rw [htexts₄, htexts₃, htexts₂, htexts₁]
    rfl

/-- Every section holds the output of one tool. -/
def Holds (t : HDSub) (w : World) : Prop :=
  ∃ s, t.captureToFile w = some s ∧ OneTool s (t.chains w)

theorem holds_iff : t.Holds w ↔ ∀ attempts ∈ t.chains w, Go.Attempt.FailsSilently attempts := by
  obtain ⟨s, hcapture, htexts⟩ := captureToFile_spec t w
  rw [← oneTool_iff_of_texts htexts, Holds]
  constructor
  · rintro ⟨s', hcapture', hone⟩
    rw [Option.some.inj (hcapture.symm.trans hcapture')]
    exact hone
  · intro hone
    exact ⟨s, hcapture, hone⟩

end HDSub

namespace NetStat

variable {w : World}

theorem captureToFile_spec {s : Sheet Byte} (hs : s.Inv) (k : Nat) :
    ∃ err s', captureToFile w k (some s) = some (err, some s') ∧ s'.Inv ∧
      s'.texts = s.texts ++ [Go.Attempt.written (attempts w k)] := by
  obtain ⟨err, file, hcommand, hok, happends⟩ := combinedOutput_spec w.env
    w.system.netState [] (by cases w.system <;> decide) (w.netState k)
    (s.file.write (w.now k ++ str "\n"))
  have hheader := Handle.appends_write s.file (w.now k ++ str "\n")
  rw [attempts]
  cases err with
  | none =>
    refine ⟨none, s.close (s.file.write (w.now k ++ str "\n")) file,
      by simp [captureToFile, hcommand], ?_⟩
    rw [Go.Attempt.written_cons_ok hok.symm]
    exact Sheet.texts_close hs hheader happends
  | some err =>
    refine ⟨(w.netStat k).err.map (str "failed to capture netstat: " ++ ·),
      s.close (s.file.write (w.now k ++ str "\n")) (file.write (w.netStat k).output),
      by simp [captureToFile, hcommand], ?_⟩
    rw [Go.Attempt.written_cons_failed hok.symm, Go.Attempt.written_singleton]
    exact Sheet.texts_close hs hheader (happends.trans (Handle.appends_write file _))

theorem run_spec (w : World) :
    ∃ s, run w = some (some s) ∧ s.texts = (chains w).map Go.Attempt.written := by
  obtain ⟨e₁, s₁, hfirst, hinv₁, htexts₁⟩ := captureToFile_spec (w := w) Sheet.inv_create 0
  obtain ⟨hinv, htexts⟩ :=
    Sheet.texts_of_appends hinv₁ (Handle.appends_write s₁.file (str "\n"))
  obtain ⟨e₂, s₂, hsecond, -, htexts₂⟩ := captureToFile_spec (w := w) hinv 1
  refine ⟨s₂, ?_, ?_⟩
  · simp only [run, hfirst, Option.bind_eq_bind, Option.bind_some, Option.map_some, hsecond,
      Option.pure_def]
  · rw [htexts₂, htexts, htexts₁]
    rfl

/-- Every snapshot is that of one tool. -/
def Holds (w : World) : Prop := ∃ s, run w = some (some s) ∧ OneTool s (chains w)

theorem holds_iff : Holds w ↔ ∀ attempts ∈ chains w, Go.Attempt.FailsSilently attempts := by
  obtain ⟨s, hrun, htexts⟩ := run_spec w
  rw [← oneTool_iff_of_texts htexts, Holds]
  constructor
  · rintro ⟨s', hrun', hone⟩
    rw [Option.some.inj (Option.some.inj (hrun.symm.trans hrun'))]
    exact hone
  · intro hone
    exact ⟨s, hrun, hone⟩

end NetStat

/-- The sections and the snapshots hold one tool's output if and only if no failed attempt prints
anything in front of one that succeeds. -/
theorem oneTool_iff (t : HDSub) (w : HDSub.World) (v : NetStat.World) :
    (t.Holds w ∧ NetStat.Holds v) ↔
      (∀ attempts ∈ t.chains w, Go.Attempt.FailsSilently attempts) ∧
        ∀ attempts ∈ NetStat.chains v, Go.Attempt.FailsSilently attempts := by
  rw [HDSub.holds_iff, NetStat.holds_iff]

/-- `jcmd` prints a line and fails, `jattach` succeeds. -/
def refused : HDSub.World where
  env := ⟨[], []⟩
  executable := str "/bin/yc"
  user := ⟨fun _ => none, 0, false⟩
  jcmd _ _ := .exits ⟨str "refused\n", 255, some (str "exit status 255"), by decide⟩
  jattach _ _ := .exits ⟨str "1: 16\n", 0, none, isSome_none_iff⟩
  copy2TempPath _ := .error []
  tmpJattach _ _ := .fails []

/-- The line stands in the sections in front of what `jattach` prints. -/
theorem not_oneTool_refused :
    ¬ ∀ (t : HDSub) (w : HDSub.World) (v : NetStat.World), t.Holds w ∧ NetStat.Holds v := by
  intro h
  have hsilent := HDSub.holds_iff.mp (h ⟨str "/jdk", 7⟩ refused
    ⟨⟨[], []⟩, .linux, fun _ => [], fun _ _ => .fails [], fun _ => ⟨[], none⟩⟩).1
    (HDSub.attempts ⟨str "/jdk", 7⟩ refused 0 (str "GC.class_histogram -all"))
    (List.mem_cons_self ..)
  have hprints : str "refused\n" = [] := hsilent (by exact nofun)
    ⟨str "refused\n", false⟩ (List.mem_cons_self ..)
  exact absurd hprints (by decide)

end YcAgent.Capture.Sections
