import YcAgent.Base.FilePath
import YcAgent.Base.Split
import YcAgent.Executils.Background
import YcAgent.Executils.Hookers
import YcAgent.Executils.ToWriter

/-!
# The heap dump of a process

`heapDump` has the JVM write a dump with one tool after the other. A JVM may write it to another
path than the one that was asked for and print a line that says so; the line is looked for in the
output of `jattach` only, and only where nothing like it stands at the start of the output.
-/
namespace YcAgent.Capture

open Go Executils Executils.Background

structure HeapDump where
  javaHome : GoString
  pid : Int
  hdPath : GoString
  dump : Bool

namespace HeapDump

/-- How the steps of a call go; a tool gets its process. -/
structure Tools where
  env : Executils.Env
  executable : GoString
  user : SudoWorld
  jcmd : ExecCmd → Run
  jattach : ExecCmd → Run
  tmpJattach : ExecCmd → Run
  copy2TempPath : Except GoString GoString
  currentUser : Except GoString GoString
  chown : Executils.Command → Option GoString

def skippedNopCommandError : GoString := str "skipped nop command"

def ofRun : Run → GoString × Option GoString
  | .fails err => ([], some err)
  | .exits exit => (exit.output, exit.waitErr)

/-- `CommandCombinedOutput`. -/
def commandCombinedOutput (e : Executils.Env) (cmd : Executils.Command) (hooks : List Hook)
    (run : ExecCmd → Run) : Option (GoString × Option GoString) :=
  match newCommand e cmd (hooks.map Hook.hooker) with
  | none => none
  | some c =>
    match c.exec with
    | none => some ([], some skippedNopCommandError)
    | some process => some (ofRun (run process))

/-- The test for a failure. -/
def failed (result : GoString × Option GoString) : Bool :=
  result.2.isSome || contains result.1 (str "No such file") ||
    contains result.1 (str "Permission denied")

/-- `%v` of an error. -/
def errText (err : Option GoString) : GoString := err.getD (str "<nil>")

/-- An error with the output that came with it. -/
def because (result : GoString × Option GoString) : Option GoString :=
  if 1 < result.1.length then some (ToWriter.becauseErr result.2 result.1) else result.2

/-- An error in front of the one before it. -/
def behind (err : GoString) (before : Option GoString) : GoString :=
  err ++ str ": " ++ errText before

def dumpWrittenTo : GoString := str "Dump written to"

def lineStart : GoString := dumpWrittenTo ++ [space]

/-- The first submatch of `(?m)^Dump written to (.*)$`. -/
def findSubmatch (output : GoString) : Option GoString :=
  (split output newline).findSome? fun line =>
    if hasPrefix line lineStart then some (line.drop lineStart.length) else none

section Call

variable (t : HeapDump) (w : Tools) (requestedFilePath : GoString)

def jcmdCommand : Executils.Command :=
  [FilePath.joinPath [t.javaHome, str "/bin/jcmd"], itoa t.pid, str "GC.heap_dump",
    requestedFilePath]

def jattachCommand (executable : GoString) : Executils.Command :=
  [executable, str "-p", itoa t.pid, str "-hdPath", requestedFilePath, str "-hdCaptureMode"]

def chownCommand (username : GoString) : Executils.Command :=
  [str "sudo", str "chown", username ++ str ":" ++ username, requestedFilePath]

/-- The last attempt, with the error of those before it. -/
def viaTemp (err : Option GoString) : Option (GoString × Option GoString) :=
  match w.copy2TempPath with
  | .error e => some (requestedFilePath, some (behind e err))
  | .ok tempPath => do
    let result ← commandCombinedOutput w.env (jattachCommand t requestedFilePath tempPath)
      [pidHook t.pid, .runAs w.user t.pid] w.tmpJattach
    if failed result then
      return (requestedFilePath, some (behind (errText (because result)) err))
    else
      match w.currentUser with
      | .error e => return (requestedFilePath, some (behind e err))
      | .ok username =>
        match w.chown (chownCommand requestedFilePath username) with
        | some e => return (requestedFilePath, some (behind e err))
        | none => return (requestedFilePath, none)

/-- `heapDump`: the actual path and the error. -/
def heapDump : Option (GoString × Option GoString) := do
  let result ← commandCombinedOutput w.env (jcmdCommand t requestedFilePath)
    [.runAs w.user t.pid] w.jcmd
  if failed result then
    let err := because result
    let result ← commandCombinedOutput w.env (jattachCommand t requestedFilePath w.executable)
      [pidHook t.pid, .runAs w.user t.pid] w.jattach
    if failed result then
      viaTemp t w requestedFilePath (some (behind (errText (because result)) err))
    else if 0 < index result.1 dumpWrittenTo then
      return ((findSubmatch result.1).getD requestedFilePath, none)
    else return (requestedFilePath, none)
  else return (requestedFilePath, none)

/-! ## The attempt that succeeds -/

inductive Tool where
  | jcmd
  | jattach
  | tmpJattach
  deriving DecidableEq

/-- What a tool comes to. -/
def outcome (cmd : Executils.Command) (hooks : List Hook) (run : ExecCmd → Run) :
    GoString × Option GoString :=
  match (newCommand w.env cmd (hooks.map Hook.hooker)).bind CmdManager.exec with
  | none => ([], some skippedNopCommandError)
  | some process => ofRun (run process)

def outcomeOf : Tool → Option (GoString × Option GoString)
  | .jcmd => some (outcome w (jcmdCommand t requestedFilePath) [.runAs w.user t.pid] w.jcmd)
  | .jattach => some (outcome w (jattachCommand t requestedFilePath w.executable)
      [pidHook t.pid, .runAs w.user t.pid] w.jattach)
  | .tmpJattach =>
    match w.copy2TempPath with
    | .error _ => none
    | .ok tempPath => some (outcome w (jattachCommand t requestedFilePath tempPath)
        [pidHook t.pid, .runAs w.user t.pid] w.tmpJattach)

/-- A tool that runs without an error and without one of the two texts in its output. -/
def output (tool : Tool) : Option GoString :=
  match outcomeOf t w requestedFilePath tool with
  | none => none
  | some result => if failed result then none else some result.1

/-- The first attempt that succeeds, with its output. -/
def succeeding : Option (Tool × GoString) :=
  [Tool.jcmd, .jattach, .tmpJattach].findSome? fun tool =>
    (output t w requestedFilePath tool).map (tool, ·)

/-- The current user is known and the dump can be given to them. -/
def owned : Bool :=
  match w.currentUser with
  | .error _ => false
  | .ok username => (w.chown (chownCommand requestedFilePath username)).isNone

/-- The output has a line that says where the dump is, which is the first such line. -/
def WrittenTo (output path : GoString) : Prop :=
  ∃ before after, split output newline = before ++ (lineStart ++ path) :: after ∧
    ∀ line ∈ before, ¬ lineStart <+: line

/-- The path of a call without an error is the one in the output of the attempt that succeeded,
or the requested one, and without such an attempt there is an error. -/
structure ReportsWritten : Prop where
  path : ∀ path, heapDump t w requestedFilePath = some (path, none) → ∃ tool out,
    succeeding t w requestedFilePath = some (tool, out) ∧
      (∀ p, WrittenTo out p → path = p) ∧
      ((∀ p, ¬ WrittenTo out p) → path = requestedFilePath)
  fails : succeeding t w requestedFilePath = none →
    ∃ path err, heapDump t w requestedFilePath = some (path, some err)

/-- The line is looked for, or says what was asked for. -/
def LooksFor (tool : Tool) (out : GoString) : Prop :=
  ∀ p, WrittenTo out p →
    p = requestedFilePath ∨ tool = .jattach ∧ ¬ dumpWrittenTo <+: out

end Call

/-! ## The line -/

theorem findSubmatch_eq_some_iff {out p : GoString} :
    findSubmatch out = some p ↔ WrittenTo out p := by
  unfold findSubmatch WrittenTo
  rw [List.findSome?_eq_some_iff]
  constructor
  · rintro ⟨before, line, after, hsplit, hline, hbefore⟩
    rw [Option.ite_none_right_eq_some, hasPrefix_iff] at hline
    obtain ⟨hfront, hp⟩ := hline
    obtain ⟨rest, rfl⟩ := hfront
    rw [List.drop_left] at hp
    cases hp
    refine ⟨before, after, hsplit, fun line hline hfront => ?_⟩
    have hnone := hbefore line hline
    rw [if_pos ((hasPrefix_iff _ _).mpr hfront)] at hnone
    cases hnone
  · rintro ⟨before, after, hsplit, hbefore⟩
    refine ⟨before, lineStart ++ p, after, hsplit, ?_, fun line hline => ?_⟩
    · rw [if_pos ((hasPrefix_iff _ _).mpr (List.prefix_append _ _)), List.drop_left]
    · exact if_neg fun hfront => hbefore line hline ((hasPrefix_iff _ _).mp hfront)

theorem infix_of_writtenTo {out p : GoString} (h : WrittenTo out p) : dumpWrittenTo <:+: out := by
  obtain ⟨before, after, hsplit, -⟩ := h
  have hline : lineStart ++ p ∈ split out newline := by
    rw [hsplit]
    exact List.mem_append_right _ List.mem_cons_self
  have hstart : dumpWrittenTo <+: lineStart ++ p :=
    (List.prefix_append dumpWrittenTo [space]).trans (List.prefix_append _ _)
  exact hstart.isInfix.trans (Text.infix_of_mem_splitOn hline)

/-! ## The call -/

section Spec

variable {t : HeapDump} {w : Tools} {requested : GoString}

theorem combined_eq {cmd : Executils.Command} (hooks : List Hook) (run : ExecCmd → Run)
    (h : 1 < cmd.length) :
    commandCombinedOutput w.env cmd hooks run = some (outcome w cmd hooks run) := by
  obtain ⟨m, c, hm, hc⟩ := exists_exec w.env hooks h
  simp [commandCombinedOutput, outcome, hm, hc]

theorem jcmd_eq (t : HeapDump) (w : Tools) (requested : GoString) :
    commandCombinedOutput w.env (jcmdCommand t requested) [.runAs w.user t.pid] w.jcmd =
      some (outcome w (jcmdCommand t requested) [.runAs w.user t.pid] w.jcmd) :=
  combined_eq _ _ (by simp [jcmdCommand])

theorem jattach_eq (t : HeapDump) (w : Tools) (requested executable : GoString)
    (run : ExecCmd → Run) :
    commandCombinedOutput w.env (jattachCommand t requested executable)
        [pidHook t.pid, .runAs w.user t.pid] run =
      some (outcome w (jattachCommand t requested executable)
        [pidHook t.pid, .runAs w.user t.pid] run) :=
  combined_eq _ _ (by simp [jattachCommand])

/-- The last attempt ends without an error where it succeeds and the dump can be given away. -/
theorem viaTemp_spec (t : HeapDump) (w : Tools) (requested : GoString) (err : Option GoString) :
    (viaTemp t w requested err = some (requested, none) ∧
      (output t w requested .tmpJattach).isSome = true ∧ owned w requested = true) ∨
    ((∃ e, viaTemp t w requested err = some (requested, some e)) ∧
      (output t w requested .tmpJattach = none ∨ owned w requested = false)) := by
  cases hcopy : w.copy2TempPath with
  | error e =>
    refine Or.inr ⟨⟨behind e err, by simp [viaTemp, hcopy]⟩, Or.inl ?_⟩
    simp [output, outcomeOf, hcopy]
  | ok tempPath =>
    have hrun := jattach_eq t w requested tempPath w.tmpJattach
    generalize hresult : outcome w (jattachCommand t requested tempPath)
      [pidHook t.pid, .runAs w.user t.pid] w.tmpJattach = result at hrun
    cases hfailed : failed result with
    | true =>
      refine Or.inr ⟨⟨behind (errText (because result)) err, ?_⟩, Or.inl ?_⟩
      · simp [viaTemp, hcopy, hrun, hfailed]
      · simp [output, outcomeOf, hcopy, hresult, hfailed]
    | false =>
      cases huser : w.currentUser with
      | error e =>
        refine Or.inr ⟨⟨behind e err, ?_⟩, Or.inr ?_⟩
        · simp [viaTemp, hcopy, hrun, hfailed, huser]
        · simp [owned, huser]
      | ok username =>
        cases hchown : w.chown (chownCommand requested username) with
        | some e =>
          refine Or.inr ⟨⟨behind e err, ?_⟩, Or.inr ?_⟩
          · simp [viaTemp, hcopy, hrun, hfailed, huser, hchown]
          · simp [owned, huser, hchown]
        | none =>
          refine Or.inl ⟨?_, ?_, ?_⟩
          · simp [viaTemp, hcopy, hrun, hfailed, huser, hchown]
          · simp [output, outcomeOf, hcopy, hresult, hfailed]
          · simp [owned, huser, hchown]

/-- The path that a call without an error gives for an attempt. -/
def actualDumpPath (requested : GoString) (tool : Tool) (out : GoString) : GoString :=
  if tool = .jattach ∧ 0 < index out dumpWrittenTo then (findSubmatch out).getD requested
  else requested

/-- Where `jcmd` and the first `jattach` fail, everything is left to the last attempt. -/
theorem heapDump_of_failed {first second : GoString × Option GoString}
    (hfirst : outcome w (jcmdCommand t requested) [.runAs w.user t.pid] w.jcmd = first)
    (hsecond : outcome w (jattachCommand t requested w.executable)
      [pidHook t.pid, .runAs w.user t.pid] w.jattach = second)
    (hfailed : failed first = true) (hfailed' : failed second = true) :
    heapDump t w requested =
        viaTemp t w requested (some (behind (errText (because second)) (because first))) ∧
      succeeding t w requested =
        (output t w requested .tmpJattach).map (Tool.tmpJattach, ·) := by
  have hjcmd := hfirst ▸ jcmd_eq t w requested
  have hjattach := hsecond ▸ jattach_eq t w requested w.executable w.jattach
  constructor
  · simp [heapDump, hjcmd, hjattach, hfailed, hfailed']
  · have hjcmdOut : output t w requested .jcmd = none := by
      simp [output, outcomeOf, hfirst, hfailed]
    have hjattachOut : output t w requested .jattach = none := by
      simp [output, outcomeOf, hsecond, hfailed']
    simp [succeeding, hjcmdOut, hjattachOut]

/-- A call ends with the path for the attempt that succeeded; it ends with an error where there is
none, and where the dump of the last one cannot be given to the user. -/
theorem heapDump_spec (t : HeapDump) (w : Tools) (requested : GoString) :
    (∃ tool out, succeeding t w requested = some (tool, out) ∧
      (tool = .tmpJattach → owned w requested = true) ∧
      heapDump t w requested = some (actualDumpPath requested tool out, none)) ∨
    ((∀ tool out, succeeding t w requested = some (tool, out) →
        tool = .tmpJattach ∧ owned w requested = false) ∧
      ∃ err, heapDump t w requested = some (requested, some err)) := by
  have hjcmd := jcmd_eq t w requested
  have hjattach := jattach_eq t w requested w.executable w.jattach
  generalize hfirst : outcome w (jcmdCommand t requested) [.runAs w.user t.pid] w.jcmd = first
    at hjcmd
  generalize hsecond : outcome w (jattachCommand t requested w.executable)
    [pidHook t.pid, .runAs w.user t.pid] w.jattach = second at hjattach
  cases hfailed : failed first with
  | false =>
    refine Or.inl ⟨.jcmd, first.1, ?_, nofun, ?_⟩
    · simp [succeeding, output, outcomeOf, hfirst, hfailed]
    · simp [heapDump, hjcmd, hfailed, actualDumpPath]
  | true =>
    cases hfailed' : failed second with
    | false =>
      refine Or.inl ⟨.jattach, second.1, ?_, nofun, ?_⟩
      · simp [succeeding, output, outcomeOf, hfirst, hfailed, hsecond, hfailed']
      · by_cases hindex : 0 < index second.1 dumpWrittenTo
        · simp [heapDump, hjcmd, hjattach, hfailed, hfailed', actualDumpPath, hindex]
        · simp [heapDump, hjcmd, hjattach, hfailed', actualDumpPath, hindex]
    | true =>
      obtain ⟨hcall, hlast⟩ := heapDump_of_failed hfirst hsecond hfailed hfailed'
      rcases viaTemp_spec t w requested (some (behind (errText (because second)) (because first)))
        with ⟨hvia, hout, howned⟩ | ⟨⟨e, hvia⟩, hnone⟩
      · obtain ⟨out, hout⟩ := Option.isSome_iff_exists.mp hout
        refine Or.inl ⟨.tmpJattach, out, ?_, fun _ => howned, ?_⟩
        · rw [hlast, hout, Option.map_some]
        · rw [hcall, hvia]
          rfl
      · refine Or.inr ⟨fun tool out hsucceeding => ?_, e, hcall.trans hvia⟩
        rw [hlast, Option.map_eq_some_iff] at hsucceeding
        obtain ⟨out', hout, heq⟩ := hsucceeding
        cases heq
        refine ⟨rfl, hnone.resolve_left ?_⟩
        rw [hout]
        exact Option.some_ne_none _

/-- The path of a call is the one that the JVM wrote to if and only if it is looked for in the
output of the attempt that succeeds, or is the requested one. -/
theorem reportsWritten_iff (t : HeapDump) (w : Tools) (requested : GoString) :
    ReportsWritten t w requested ↔
      ∀ tool out, succeeding t w requested = some (tool, out) →
        (tool = .tmpJattach → owned w requested = true) → LooksFor requested tool out := by
  constructor
  · intro h tool out hsucceeding howned p hp
    rcases heapDump_spec t w requested with ⟨tool', out', hwinner, -, hcall⟩ | ⟨hlost, -⟩
    · cases hsucceeding.symm.trans hwinner
      obtain ⟨tool'', out'', hwinner', hpath, -⟩ := h.path _ hcall
      cases hsucceeding.symm.trans hwinner'
      have hactual := hpath p hp
      unfold actualDumpPath at hactual
      split at hactual
      · rename_i hlooks
        exact Or.inr ⟨hlooks.1, ((index_pos_iff _ _).mp hlooks.2).2⟩
      · exact Or.inl hactual.symm
    · obtain ⟨htool, hnot⟩ := hlost tool out hsucceeding
      exact absurd (howned htool) (by rw [hnot]; exact Bool.false_ne_true)
  · intro h
    rcases heapDump_spec t w requested with ⟨tool, out, hsucceeding, howned, hcall⟩ |
      ⟨-, err, hcall⟩
    · refine ⟨fun path hpath => ⟨tool, out, hsucceeding, fun p hp => ?_, fun hno => ?_⟩,
        fun hnone => ?_⟩
      · cases hcall.symm.trans hpath
        have hsubmatch := findSubmatch_eq_some_iff.mpr hp
        unfold actualDumpPath
        rw [hsubmatch, Option.getD_some]
        split
        · rfl
        · rename_i hlooks
          rcases h tool out hsucceeding howned p hp with hsame | ⟨htool, hfront⟩
          · exact hsame.symm
          · exact absurd ⟨htool, (index_pos_iff _ _).mpr ⟨infix_of_writtenTo hp, hfront⟩⟩ hlooks
      · cases hcall.symm.trans hpath
        have hsubmatch : findSubmatch out = none := by
          cases hfind : findSubmatch out with
          | none => rfl
          | some p => exact absurd (findSubmatch_eq_some_iff.mp hfind) (hno p)
        unfold actualDumpPath
        rw [hsubmatch, Option.getD_none, ite_self]
      · cases hsucceeding.symm.trans hnone
    · refine ⟨fun path hpath => ?_, fun _ => ⟨requested, err, hcall⟩⟩
      cases hcall.symm.trans hpath

end Spec

/-- `jcmd` succeeds, and the JVM says that it wrote somewhere else. -/
def failover : Tools where
  env := ⟨[], []⟩
  executable := str "/bin/yc"
  user := ⟨fun _ => none, 0, false⟩
  jcmd _ := .exits ⟨str "7:\nDump written to /tmp/hd\n", 0, none, isSome_none_iff⟩
  jattach _ := .fails []
  tmpJattach _ := .fails []
  copy2TempPath := .error []
  currentUser := .error []
  chown _ := none

/-- The requested path is returned. -/
theorem failover_path : heapDump ⟨str "/jdk", 7, [], true⟩ failover (str "/srv/hd") =
    some (str "/srv/hd", none) ∧
      ¬ ∀ (t : HeapDump) (w : Tools) (requested : GoString), ReportsWritten t w requested := by
  have hcall : heapDump ⟨str "/jdk", 7, [], true⟩ failover (str "/srv/hd") =
      some (str "/srv/hd", none) := rfl
  refine ⟨hcall, fun h => ?_⟩
  obtain ⟨tool, out, hsucceeding, hpath, -⟩ :=
    (h ⟨str "/jdk", 7, [], true⟩ failover (str "/srv/hd")).path _ hcall
  have hwinner : succeeding ⟨str "/jdk", 7, [], true⟩ failover (str "/srv/hd") =
      some (.jcmd, str "7:\nDump written to /tmp/hd\n") := rfl
  cases hwinner.symm.trans hsucceeding
  have hline : WrittenTo (str "7:\nDump written to /tmp/hd\n") (str "/tmp/hd") :=
    ⟨[str "7:"], [[]], by decide, by decide⟩
  exact absurd (hpath _ hline) (by decide)

end HeapDump

end YcAgent.Capture
